import SolarOs.Ramfs.Calls

/-! The sibling chains of a mount: each node but the root is in the chain of its parent,
and in no other. Taking a node out and putting it first keep that. -/
namespace SolarOs.Ramfs
open LinkedList Function List Option

def Node.links (node : Node) : Bool × Option Place × Option Place × Option Place :=
  (node.isDir, node.parent, node.children, node.next)

namespace Mount
variable {m m' : Mount} {kids : Place → List Place} {off : Option Place} {place parent q : Place}
  {node : Node} {xs ys : List Place}

/-- The chains are the lists `kids`, where the node `off`, if there is one, is in none. -/
structure Linked (m : Mount) (kids : Place → List Place) (off : Option Place) : Prop where
  root : ∃ node, m.nodes .root = some node ∧ node.isDir = true ∧ node.parent = none
  chain : ∀ place node, m.nodes place = some node → Chain m.next node.children (kids place)
  file : ∀ place node, m.nodes place = some node → node.isDir = false → kids place = []
  child : ∀ place, (m.nodes place).isSome → ∀ c ∈ kids place, some c ≠ off ∧
    ∃ node, m.nodes c = some node ∧ node.parent = some place
  parent : ∀ place node, m.nodes place = some node → place ≠ .root → some place ≠ off →
    ∃ q, node.parent = some q ∧ (m.nodes q).isSome ∧ place ∈ kids q

theorem node_of_some (h : m.nodes place = some node) : m.node place = node := by
  unfold Mount.node
  rw [h]
  rfl

theorem node_of_none (h : m.nodes place = none) : m.node place = .zero := by
  unfold Mount.node
  rw [h]
  rfl

theorem next_congr (same : m'.nodes place = m.nodes place) : m'.next place = m.next place := by
  unfold Mount.next Mount.node
  rw [same]

theorem Linked.one_parent (h : m.Linked kids off) {place' c : Place} (live : (m.nodes place).isSome)
    (live' : (m.nodes place').isSome) (there : c ∈ kids place) (there' : c ∈ kids place') : place = place' := by
  obtain ⟨-, node, here, parent⟩ := h.child place live c there
  obtain ⟨-, node', here', parent'⟩ := h.child place' live' c there'
  rw [here] at here'
  cases here'
  exact Option.some.inj (parent.symm.trans parent')

theorem Linked.nodup (h : m.Linked kids off) (live : (m.nodes place).isSome) : (kids place).Nodup := by
  obtain ⟨node, there⟩ := isSome_iff_exists.mp live
  exact (h.chain place node there).nodup

/-- What taking a node out of the chain of `q` makes of the record at `p`. -/
def unlinked (m : Mount) (q place : Place) (xs : List Place) (p : Place) (node : Node) : Node :=
  { node with
    children := if p = q ∧ xs = [] then m.next place else node.children
    next := if p = place then none else if xs.getLast? = some p then m.next place else node.next }

theorem Linked.unlinkNode_eq (h : m.Linked kids none) (there : m.nodes place = some node)
    (parent : node.parent = some q) (live : (m.nodes q).isSome) (split : kids q = xs ++ place :: ys)
    (enough : xs.length < m.heap.arenaBytes) :
    m.unlinkNode place = { m with nodes := fun p => (m.nodes p).map (m.unlinked q place xs p) } := by
  obtain ⟨dir, here⟩ := isSome_iff_exists.mp live
  have chain := h.chain q dir here
  rw [split] at chain
  have before := chain.before none enough
  rw [or_none] at before
  have after : m.next place = node.next := by
    unfold Mount.next
    rw [node_of_some there]
  unfold unlinkNode
  rw [node_of_some there, parent]
  simp only [node_of_some here, before]
  cases last : xs.getLast? with
  | none =>
    have first : xs = [] := getLast?_eq_none_iff.mp last
    simp only [setNode, Mount.mk.injEq, true_and, and_true]
    funext p
    unfold unlinked
    by_cases self : p = place
    · subst self
      by_cases own : p = q
      · subst own
        rw [there] at here
        cases here
        simp [Mount.node, there, first]
      · simp [Mount.node, there, own]
    · by_cases own : p = q
      · subst own
        simp [self, here, first]
      · simp [self, own, last]
  | some sibling =>
    have some : xs ≠ [] := by
      rintro rfl
      cases last
    have inside : sibling ∈ kids q := split ▸ mem_append_left _ (mem_of_getLast? last)
    obtain ⟨-, brother, sits, -⟩ := h.child q live sibling inside
    have other : sibling ≠ place := by
      rintro rfl
      have distinct := h.nodup live
      rw [split, nodup_middle, nodup_cons] at distinct
      exact distinct.1 (mem_append_left _ (mem_of_getLast? last))
    simp only [setNode, Mount.mk.injEq, true_and, and_true]
    funext p
    unfold unlinked
    by_cases self : p = place
    · subst self
      simp [Mount.node, there, some, Ne.symm other]
    · by_cases own : p = sibling
      · subst own
        simp [self, node_of_some sits, sits, some, last]
      · simp [self, own, Ne.symm own, some, last]

/-- The mount with a node taken out of the chain of `q`. -/
def without (m : Mount) (q place : Place) (xs : List Place) : Mount :=
  { m with nodes := fun p => (m.nodes p).map (m.unlinked q place xs p) }

theorem without_of_some {p : Place} (there : m.nodes p = some node) :
    (m.without q place xs).nodes p = some (m.unlinked q place xs p node) := by
  simp only [without, there, map_some]

theorem without_next {y : Place} (live : (m.nodes y).isSome) : (m.without q place xs).next y =
    if y = place then none else if xs.getLast? = some y then m.next place else m.next y := by
  obtain ⟨node, there⟩ := isSome_iff_exists.mp live
  have there' : (m.without q place xs).nodes y = some (m.unlinked q place xs y node) := without_of_some there
  have old : m.next y = node.next := by
    unfold Mount.next
    rw [node_of_some there]
  rw [old]
  unfold Mount.next
  rw [node_of_some there']
  rfl

theorem without_some {p : Place} {node' : Node} (there : (m.without q place xs).nodes p = some node') :
    ∃ node, m.nodes p = some node ∧ node' = m.unlinked q place xs p node := by
  obtain ⟨node, old, new⟩ := map_eq_some_iff.mp there
  exact ⟨node, old, new.symm⟩

theorem without_isSome {p : Place} : ((m.without q place xs).nodes p).isSome = (m.nodes p).isSome := isSome_map

theorem Linked.without (h : m.Linked kids none) (live : (m.nodes q).isSome) (split : kids q = xs ++ place :: ys) :
    (m.without q place xs).Linked (update kids q (xs ++ ys)) (some place) := by
  have mine : place ∈ kids q := split ▸ mem_append_right _ mem_cons_self
  have distinct := h.nodup live
  rw [split, nodup_middle, nodup_cons] at distinct
  have among : ∀ {y}, y ∈ xs ++ ys → y ∈ kids q ∧ y ≠ place := by
    intro y there
    refine ⟨?_, fun same => distinct.1 (same ▸ there)⟩
    rw [split]
    exact mem_append.mpr ((mem_append.mp there).imp_right (mem_cons_of_mem _))
  have lives : ∀ {p c}, (m.nodes p).isSome → c ∈ kids p → (m.nodes c).isSome := by
    intro p c live there
    obtain ⟨-, node, sits, -⟩ := h.child p live c there
    exact isSome_iff_exists.mpr ⟨node, sits⟩
  constructor
  · obtain ⟨root, there, dir, top⟩ := h.root
    exact ⟨m.unlinked q place xs .root root, without_of_some there, dir, top⟩
  · intro p node' there'
    obtain ⟨node, there, rfl⟩ := without_some there'
    have chain := h.chain p node there
    by_cases own : p = q
    · subst own
      rw [split] at chain
      have relinked : Chain (m.without p place xs).next (if xs = [] then m.next place else node.children) (xs ++ ys) :=
        chain.unlink fun y inside => by rw [without_next (lives live (among inside).1), if_neg (among inside).2]
      rw [update_self]
      unfold unlinked
      by_cases first : xs = []
      · simpa [first] using relinked
      · simpa [first] using relinked
    · rw [update_of_ne own]
      have here : (m.nodes p).isSome := isSome_iff_exists.mpr ⟨node, there⟩
      have same : ∀ y ∈ kids p, (m.without q place xs).next y = m.next y := by
        intro y inside
        have other : y ∉ kids q := fun twice => own (h.one_parent here live inside twice)
        have notPlace : y ≠ place := fun same => other (same ▸ mine)
        have notLast : xs.getLast? ≠ some y := fun last =>
          other (split ▸ mem_append_left _ (mem_of_getLast? last))
        rw [without_next (lives here inside), if_neg notPlace, if_neg notLast]
      have children : (m.unlinked q place xs p node).children = node.children := by simp [unlinked, own]
      rw [children]
      exact chain.congr same
  · intro p node' there' plain
    obtain ⟨node, there, rfl⟩ := without_some there'
    have none := h.file p node there plain
    by_cases own : p = q
    · subst own
      rw [none] at split
      exact absurd split (by simp)
    · rw [update_of_ne own, none]
  · intro p live' c inside
    rw [without_isSome] at live'
    have old : c ∈ kids p ∧ c ≠ place := by
      by_cases own : p = q
      · subst own
        rw [update_self] at inside
        exact among inside
      · rw [update_of_ne own] at inside
        refine ⟨inside, ?_⟩
        rintro rfl
        exact own (h.one_parent live' live inside mine)
    obtain ⟨-, node, there, parent⟩ := h.child p live' c old.1
    exact ⟨fun same => old.2 (Option.some.inj same), m.unlinked q place xs c node, without_of_some there, parent⟩
  · intro p node' there' inner off
    obtain ⟨node, there, rfl⟩ := without_some there'
    obtain ⟨r, parent, live', inside⟩ := h.parent p node there inner nofun
    refine ⟨r, parent, without_isSome.trans live', ?_⟩
    by_cases own : r = q
    · subst own
      rw [split] at inside
      rw [update_self, mem_append]
      rcases mem_append.mp inside with first | rest
      · exact .inl first
      · rcases mem_cons.mp rest with rfl | last
        · exact absurd rfl off
        · exact .inr last
    · rw [update_of_ne own]
      exact inside

theorem linkFirst_nodes (p : Place) : (m.linkFirst place parent node).nodes p = if p = parent then
      some { (if parent = place then { node with parent := some parent, next := (m.node parent).children }
        else m.node parent) with children := some place }
    else if p = place then some { node with parent := some parent, next := (m.node parent).children }
    else m.nodes p := by
  by_cases own : p = parent
  · subst own
    by_cases self : p = place
    · subst self
      simp [linkFirst, setNode, Mount.node]
    · simp [linkFirst, setNode, Mount.node, self]
  · by_cases self : p = place
    · subst self
      simp [linkFirst, setNode, own]
    · simp [linkFirst, setNode, own, self]

theorem linkFirst_next (p : Place) (dir : (m.nodes parent).isSome) : (m.linkFirst place parent node).next p =
    if p = place then (m.node parent).children else m.next p := by
  unfold Mount.next
  by_cases own : p = parent
  · subst own
    by_cases self : p = place
    · subst self
      simp [Mount.node, linkFirst_nodes]
    · simp [Mount.node, linkFirst_nodes, self]
  · by_cases self : p = place
    · subst self
      simp [Mount.node, linkFirst_nodes, own]
    · simp [Mount.node, linkFirst_nodes, own, self]

theorem Linked.linkFirst {dir : Node} (h : m.Linked kids (some place)) (inner : place ≠ .root)
    (there : m.nodes parent = some dir) (isDir : dir.isDir = true) (own : parent = place → node.isDir = true)
    (chain : Chain m.next node.children (kids place)) (file : node.isDir = false → kids place = [])
    (child : ∀ c ∈ kids place, c ≠ place ∧ ∃ child, m.nodes c = some child ∧ child.parent = some place) :
    (m.linkFirst place parent node).Linked (update kids parent (place :: kids parent)) none := by
  have loose : ∀ p, (m.nodes p).isSome → place ∉ kids p := fun p live inside => (h.child p live place inside).1 rfl
  have live : (m.nodes parent).isSome := isSome_iff_exists.mpr ⟨dir, there⟩
  have kept : ∀ c child, c ≠ place → m.nodes c = some child →
      ∃ child', (m.linkFirst place parent node).nodes c = some child' ∧ child'.parent = child.parent := by
    intro c child other old
    rw [linkFirst_nodes]
    by_cases own : c = parent
    · subst own
      rw [if_pos rfl, if_neg other, node_of_some old]
      exact ⟨_, rfl, rfl⟩
    · rw [if_neg own, if_neg other]
      exact ⟨child, old, rfl⟩
  have new : ∃ node', (m.linkFirst place parent node).nodes place = some node' ∧ node'.parent = some parent := by
    rw [linkFirst_nodes]
    by_cases self : place = parent
    · rw [if_pos self, if_pos self.symm]
      exact ⟨_, rfl, rfl⟩
    · rw [if_neg self, if_pos rfl]
      exact ⟨_, rfl, rfl⟩
  -- a record of the new mount is an old one, or the given one, with other links
  have look : ∀ p node', (m.linkFirst place parent node).nodes p = some node' → ∃ base,
      Chain m.next base.children (kids p) ∧ (base.isDir = false → kids p = []) ∧ node'.isDir = base.isDir ∧
        node'.children = (if p = parent then some place else base.children) ∧
        (p = place ∧ base = node ∨ p ≠ place ∧ m.nodes p = some base ∧ node'.parent = base.parent) := by
    intro p node' there'
    rw [linkFirst_nodes] at there'
    by_cases self : p = place
    · subst self
      refine ⟨node, chain, file, ?_⟩
      by_cases own : p = parent
      · rw [if_pos own, if_pos own.symm] at there'
        cases there'
        rw [if_pos own]
        exact ⟨rfl, rfl, .inl ⟨rfl, rfl⟩⟩
      · rw [if_neg own, if_pos rfl] at there'
        cases there'
        rw [if_neg own]
        exact ⟨rfl, rfl, .inl ⟨rfl, rfl⟩⟩
    · by_cases own : p = parent
      · subst own
        rw [if_pos rfl, if_neg self, node_of_some there] at there'
        cases there'
        exact ⟨dir, h.chain p dir there, h.file p dir there, rfl, (if_pos rfl).symm, .inr ⟨self, there, rfl⟩⟩
      · rw [if_neg own, if_neg self] at there'
        exact ⟨node', h.chain p node' there', h.file p node' there', rfl, (if_neg own).symm, .inr ⟨self, there', rfl⟩⟩
  have lives : ∀ p, (m.nodes p).isSome → ((m.linkFirst place parent node).nodes p).isSome := by
    intro p here
    obtain ⟨old, here⟩ := isSome_iff_exists.mp here
    by_cases self : p = place
    · obtain ⟨node', sits, -⟩ := new
      rw [self]
      exact isSome_iff_exists.mpr ⟨node', sits⟩
    · obtain ⟨node', sits, -⟩ := kept p old self here
      exact isSome_iff_exists.mpr ⟨node', sits⟩
  have absent : ∀ p node', (m.linkFirst place parent node).nodes p = some node' → place ∉ kids p := by
    intro p node' there' inside
    obtain ⟨base, -, -, -, -, ⟨rfl, -⟩ | ⟨-, old, -⟩⟩ := look p node' there'
    · exact (child p inside).1 rfl
    · exact loose p (isSome_iff_exists.mpr ⟨base, old⟩) inside
  have follow : ∀ {start list}, Chain m.next start list → place ∉ list →
      Chain (m.linkFirst place parent node).next start list := by
    intro start list chain absent
    apply chain.congr
    intro y inside
    rw [linkFirst_next y live, if_neg]
    rintro rfl
    exact absent inside
  constructor
  · obtain ⟨root, sits, rootDir, top⟩ := h.root
    obtain ⟨root', sits', parent'⟩ := kept .root root (Ne.symm inner) sits
    obtain ⟨base, -, -, dir', -, ⟨same, -⟩ | ⟨-, old, -⟩⟩ := look .root root' sits'
    · exact absurd same.symm inner
    · rw [sits] at old
      cases old
      exact ⟨root', sits', dir'.trans rootDir, parent'.trans top⟩
  · intro p node' there'
    obtain ⟨base, line, -, -, children, -⟩ := look p node' there'
    rw [children]
    by_cases own : p = parent
    · subst own
      rw [if_pos rfl, update_self]
      refine ⟨rfl, ?_⟩
      rw [linkFirst_next place live, if_pos rfl, node_of_some there]
      exact follow (h.chain p dir there) (absent p node' there')
    · rw [if_neg own, update_of_ne own]
      exact follow line (absent p node' there')
  · intro p node' there' plain
    obtain ⟨base, -, none, same, -, which⟩ := look p node' there'
    by_cases mine : p = parent
    · subst mine
      rcases which with ⟨self, rfl⟩ | ⟨-, old, -⟩
      · exact nomatch (own self).symm.trans (same.symm.trans plain)
      · rw [there] at old
        cases old
        exact nomatch isDir.symm.trans (same.symm.trans plain)
    · rw [update_of_ne mine]
      exact none (same.symm.trans plain)
  · intro p live' c inside
    refine ⟨nofun, ?_⟩
    have old : ∀ c ∈ kids p, ∃ node', (m.linkFirst place parent node).nodes c = some node' ∧ node'.parent = some p := by
      intro d among
      obtain ⟨node', there'⟩ := isSome_iff_exists.mp live'
      have here : d ≠ place ∧ ∃ child, m.nodes d = some child ∧ child.parent = some p := by
        obtain ⟨base, -, -, -, -, ⟨rfl, -⟩ | ⟨-, sits, -⟩⟩ := look p node' there'
        · exact child d among
        · have former := h.child p (isSome_iff_exists.mpr ⟨base, sits⟩) d among
          exact ⟨fun same => former.1 (congrArg some same), former.2⟩
      obtain ⟨other, old, sits, up⟩ := here
      obtain ⟨new, sits', up'⟩ := kept d old other sits
      exact ⟨new, sits', up'.trans up⟩
    by_cases mine : p = parent
    · subst mine
      rw [update_self] at inside
      rcases mem_cons.mp inside with rfl | inside
      · exact new
      · exact old c inside
    · rw [update_of_ne mine] at inside
      exact old c inside
  · intro p node' there' inner' _
    by_cases self : p = place
    · subst self
      obtain ⟨node₁, sits, up⟩ := new
      rw [sits] at there'
      cases there'
      refine ⟨parent, up, lives parent live, ?_⟩
      rw [update_self]
      exact mem_cons_self
    · obtain ⟨base, -, -, -, -, ⟨same, -⟩ | ⟨-, old, up⟩⟩ := look p node' there'
      · exact absurd same self
      · obtain ⟨r, up', here, inside⟩ := h.parent p base old inner' fun same => self (Option.some.inj same)
        refine ⟨r, up.trans up', lives r here, ?_⟩
        by_cases mine : r = parent
        · subst mine
          rw [update_self]
          exact mem_cons_of_mem _ inside
        · rw [update_of_ne mine]
          exact inside

theorem Linked.congr (h : m.Linked kids off)
    (same : ∀ p, (m'.nodes p).map Node.links = (m.nodes p).map Node.links) : m'.Linked kids off := by
  have old : ∀ p node', m'.nodes p = some node' → ∃ node, m.nodes p = some node ∧ node.links = node'.links := by
    intro p node' there'
    have eq := same p
    rw [there', map_some] at eq
    exact map_eq_some_iff.mp eq.symm
  have new : ∀ p node, m.nodes p = some node → ∃ node', m'.nodes p = some node' ∧ node'.links = node.links := by
    intro p node there
    have eq := same p
    rw [there, map_some] at eq
    exact map_eq_some_iff.mp eq
  have live : ∀ p, (m'.nodes p).isSome = (m.nodes p).isSome := by
    intro p
    have eq := congrArg Option.isSome (same p)
    rwa [isSome_map, isSome_map] at eq
  have next : ∀ p, m'.next p = m.next p := by
    intro p
    unfold Mount.next
    cases there : m.nodes p with
    | none =>
      have none' : m'.nodes p = none := by
        have gone := live p
        rw [there] at gone
        exact isSome_eq_false_iff.mp gone |> isNone_iff_eq_none.mp
      rw [node_of_none there, node_of_none none']
    | some node =>
      obtain ⟨node', there', links⟩ := new p node there
      rw [node_of_some there, node_of_some there']
      exact congrArg (·.2.2.2) links
  constructor
  · obtain ⟨root, there, dir, top⟩ := h.root
    obtain ⟨root', there', links⟩ := new .root root there
    exact ⟨root', there', (congrArg (·.1) links).trans dir, (congrArg (·.2.1) links).trans top⟩
  · intro p node' there'
    obtain ⟨node, there, links⟩ := old p node' there'
    have children : node.children = node'.children := congrArg (·.2.2.1) links
    rw [← children]
    exact (h.chain p node there).congr fun y _ => next y
  · intro p node' there' plain
    obtain ⟨node, there, links⟩ := old p node' there'
    exact h.file p node there ((congrArg (·.1) links).trans plain)
  · intro p here c inside
    obtain ⟨other, node, there, up⟩ := h.child p (live p ▸ here) c inside
    obtain ⟨node', there', links⟩ := new c node there
    exact ⟨other, node', there', (congrArg (·.2.1) links).trans up⟩
  · intro p node' there' inner notOff
    obtain ⟨node, there, links⟩ := old p node' there'
    obtain ⟨q, up, here, inside⟩ := h.parent p node there inner notOff
    exact ⟨q, (congrArg (·.2.1) links).symm.trans up, (live q).trans here, inside⟩

theorem Linked.erase (h : m.Linked kids (some place)) (inner : place ≠ .root) (none : kids place = [])
    (nodes : m'.nodes = update m.nodes place Option.none) : m'.Linked kids Option.none := by
  have keep : ∀ p, p ≠ place → m'.nodes p = m.nodes p := by
    intro p other
    rw [nodes, update_of_ne other]
  have notSelf : ∀ p, (m'.nodes p).isSome → p ≠ place := by
    rintro p live rfl
    rw [nodes, update_self] at live
    exact nomatch live
  have lives : ∀ p node, m'.nodes p = some node → p ≠ place ∧ m.nodes p = some node := by
    intro p node there
    have other := notSelf p (isSome_iff_exists.mpr ⟨node, there⟩)
    exact ⟨other, keep p other ▸ there⟩
  constructor
  · obtain ⟨root, there, rest⟩ := h.root
    exact ⟨root, (keep .root (Ne.symm inner)).trans there, rest⟩
  · intro p node there
    obtain ⟨-, old⟩ := lives p node there
    refine (h.chain p node old).congr fun y inside => next_congr (keep y ?_)
    rintro rfl
    exact (h.child p (isSome_iff_exists.mpr ⟨node, old⟩) y inside).1 rfl
  · intro p node there
    exact h.file p node (lives p node there).2
  · intro p live c inside
    obtain ⟨node, there⟩ := isSome_iff_exists.mp live
    obtain ⟨other, child, sits, up⟩ := h.child p (isSome_iff_exists.mpr ⟨node, (lives p node there).2⟩) c inside
    exact ⟨nofun, child, (keep c fun same => other (congrArg some same)).trans sits, up⟩
  · intro p node there inner' _
    obtain ⟨other, old⟩ := lives p node there
    obtain ⟨q, up, live, inside⟩ := h.parent p node old inner' fun same => other (Option.some.inj same)
    refine ⟨q, up, ?_, inside⟩
    rw [keep q ?_]
    · exact live
    · rintro rfl
      rw [none] at inside
      exact not_mem_nil inside

end Mount
end SolarOs.Ramfs
