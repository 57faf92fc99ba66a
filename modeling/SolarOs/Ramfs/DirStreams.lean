import SolarOs.Library.ListCursor
import SolarOs.Ramfs.Runs

/-! Directory streams: what a stream returns while files and directories are made, removed
and moved. -/
namespace SolarOs.Ramfs
open ByteMemory ListCursor Function List Machine

/-- `ramfs_dir_t`, without the entry it returns. -/
structure RamfsDir where
  dirNode : Place
  next : Option Place
  pos : Nat
  deriving DecidableEq

structure Dirent where
  name : Name
  isDir : Bool
  deriving DecidableEq

/-- The loop of `ramfs_vfs_seekdir` for the entries that are still to be skipped. -/
def seekLoop (next : Place → Option Place) : Nat → Option Place → Nat → Option Place × Nat
  | 0, start, pos => (start, pos)
  | _ + 1, none, pos => (none, pos)
  | skip + 1, some place, pos => seekLoop next skip (next place) (pos + 1)

namespace Mount
variable (m : Mount)

/-- `backed` says whether there is memory for the stream. -/
def vfsOpendir (path : List UInt8) (backed : Bool) : Except Errno RamfsDir :=
  match m.findNode path with
  | .error errno => .error errno
  | .ok place =>
    if (m.node place).isDir = false then
      .error .ENOTDIR
    else if backed = false then
      .error .ENOMEM
    else
      .ok { dirNode := place, next := (m.node place).children, pos := 0 }

def vfsReaddir (dir : RamfsDir) : RamfsDir × Option Dirent :=
  match dir.next with
  | none => (dir, none)
  | some place =>
    ({ dir with next := (m.node place).next, pos := dir.pos + 1 }, some ⟨(m.node place).name, (m.node place).isDir⟩)

def vfsSeekdir (dir : RamfsDir) (offset : Int) : RamfsDir :=
  if offset < 0 then
    dir
  else
    let (next, pos) := seekLoop m.next offset.toNat (m.node dir.dirNode).children 0
    { dir with next, pos }

def from_ (start : Option Place) : List Place := LinkedList.toList m.next m.heap.arenaBytes start

end Mount

/-- An open stream and its history: whether its directory has stayed, which entries were
ahead when the iteration began and are children of the directory ever since, and what was
returned from then on. -/
structure Stream where
  dir : RamfsDir
  stays : Bool
  since : List Place
  returned : List Place
  deriving DecidableEq

def Stream.watch (m : Mount) (stream : Stream) : Stream :=
  { stream with
    stays := stream.stays && (m.nodes stream.dir.dirNode).isSome
    since := stream.since.filter (· ∈ m.childrenOf stream.dir.dirNode) }

def Stream.readdir (m : Mount) (stream : Stream) : Stream :=
  { stream with
    dir := (m.vfsReaddir stream.dir).1
    returned := stream.returned ++ stream.dir.next.toList }

def Stream.seekdir (m : Mount) (offset : Int) (stream : Stream) : Stream :=
  if offset < 0 then
    stream
  else
    let dir := m.vfsSeekdir stream.dir offset
    { stream with dir, since := m.from_ dir.next, returned := [] }

/-- The mount and its streams, in the order in which they were opened. -/
structure Streams where
  mount : Mount
  streams : List (Option Stream)

inductive Turn where
  | call (call : FsCall)
  | opendir (path : List UInt8) (backed : Bool)
  | readdir (dir : Nat)
  | seekdir (dir : Nat) (offset : Int)
  | closedir (dir : Nat)
  deriving DecidableEq

namespace Streams
variable {s : Streams}

def step (s : Streams) : Turn → Streams
  | .call call =>
    let mount := s.mount.after call
    { mount, streams := s.streams.map (Option.map (Stream.watch mount)) }
  | .opendir path backed =>
    match s.mount.vfsOpendir path backed with
    | .error _ => s
    | .ok dir => { s with streams := s.streams ++ [some ⟨dir, true, s.mount.childrenOf dir.dirNode, []⟩] }
  | .readdir dir => { s with streams := s.streams.modify dir (Option.map (Stream.readdir s.mount)) }
  | .seekdir dir offset => { s with streams := s.streams.modify dir (Option.map (Stream.seekdir s.mount offset)) }
  | .closedir dir => { s with streams := s.streams.set dir none }

def start (mount : Mount) : Streams := ⟨mount, []⟩

/-- The pointer of a stream leads to a child of its directory, no entry is returned twice,
and at the end every entry that was there all the time was returned. -/
structure Valid (m : Mount) (stream : Stream) : Prop where
  next : ∀ place, stream.dir.next = some place → (m.nodes place).isSome ∧ place ∈ m.childrenOf stream.dir.dirNode
  once : ∀ place ∈ stream.since, stream.returned.count place ≤ 1
  whole : stream.dir.next = none → ∀ place ∈ stream.since, stream.returned.count place = 1

/-- No call takes the node a stream points to, or moves an entry that is ahead of a stream to
the front, and no stream is put somewhere in a directory that is gone. -/
def Careful (s : Streams) : Turn → Prop
  | .call call => ∀ stream, some stream ∈ s.streams →
      (∀ place, s.mount.Removes call place → stream.dir.next ≠ some place) ∧
      ∀ place parent, s.mount.Renames call place parent → stream.dir.next ≠ some place ∧
        (stream.dir.dirNode = parent → place ∉ s.mount.from_ stream.dir.next)
  | .seekdir dir offset => 0 ≤ offset → ∀ stream, s.streams[dir]? = some (some stream) → stream.stays = true
  | _ => True

structure Tracked (m : Mount) (stream : Stream) : Prop where
  stays : stream.stays = true → (m.nodes stream.dir.dirNode).isSome ∧
    Tracks (m.childrenOf stream.dir.dirNode) stream.dir.next stream.since stream.returned
  gone : stream.stays = false → stream.dir.next = none ∧ stream.since = []

theorem Tracked.valid {m : Mount} {stream : Stream} (sound : m.Sound) (h : Tracked m stream) : Valid m stream := by
  cases stays : stream.stays with
  | true =>
    obtain ⟨-, tracks⟩ := h.stays stays
    constructor
    · intro place here
      rw [here] at tracks
      exact ⟨sound.child_live tracks.mem, tracks.mem⟩
    · exact tracks.count_le_one
    · intro ended
      rw [ended] at tracks
      exact tracks.complete
  | false =>
    obtain ⟨none, empty⟩ := h.gone stays
    constructor
    · intro place here
      exact nomatch none.symm.trans here
    · rw [empty]
      exact nofun
    · rw [empty]
      exact nofun

section Turns
variable {m n : Mount} {stream : Stream}

theorem children_chain (sound : m.Sound) {place : Place} (live : (m.nodes place).isSome) :
    LinkedList.Chain m.next (m.node place).children (m.childrenOf place) := by
  obtain ⟨node, there⟩ := Option.isSome_iff_exists.mp live
  rw [Mount.node_of_some there]
  exact sound.linked.chain place node there

theorem from_ahead (sound : m.Sound) {place : Place} (live : (m.nodes place).isSome) {done ahead : List Place}
    (split : m.childrenOf place = done ++ ahead) : m.from_ ahead.head? = ahead := by
  have chain := children_chain sound live
  have short := Mount.length_kids sound.houses sound.linked live
  rw [split] at chain short
  rw [length_append] at short
  exact chain.suffix.toList (by omega)

theorem Tracked.watch (h : Tracked m stream)
    (stay : (m.nodes stream.dir.dirNode).isSome → (n.nodes stream.dir.dirNode).isSome →
      Tracks (m.childrenOf stream.dir.dirNode) stream.dir.next stream.since stream.returned →
      Tracks (n.childrenOf stream.dir.dirNode) stream.dir.next
        (stream.since.filter (· ∈ n.childrenOf stream.dir.dirNode)) stream.returned)
    (leave : (m.nodes stream.dir.dirNode).isSome → n.nodes stream.dir.dirNode = none →
      m.childrenOf stream.dir.dirNode = []) : Tracked n (stream.watch n) := by
  constructor
  · intro stays
    obtain ⟨before, live⟩ := Bool.and_eq_true_iff.mp stays
    obtain ⟨old, tracks⟩ := h.stays before
    exact ⟨live, stay old live tracks⟩
  · intro gone
    rcases Bool.and_eq_false_iff.mp gone with before | dead
    · obtain ⟨none, empty⟩ := h.gone before
      refine ⟨none, ?_⟩
      simp [Stream.watch, empty]
    · have dead : n.nodes stream.dir.dirNode = none := Option.not_isSome_iff_eq_none.mp (by simp [dead])
      have empty : (stream.watch n).since = [] := by simp [Stream.watch, Mount.childrenOf_none dead]
      cases before : stream.stays with
      | true =>
        obtain ⟨old, tracks⟩ := h.stays before
        rw [leave old dead] at tracks
        exact ⟨tracks.of_nil, empty⟩
      | false => exact ⟨(h.gone before).1, empty⟩

theorem nodes_isSome (m : Mount) (place : Place) : (m.tree.entry place).isSome = (m.nodes place).isSome := Option.isSome_map

theorem Tracked.call {call : FsCall} (sound : m.Sound) (h : Tracked m stream) (changes : m.Changes call n)
    (keeps : ∀ place, m.Removes call place → stream.dir.next ≠ some place)
    (stands : ∀ place parent, m.Renames call place parent → stream.dir.next ≠ some place ∧
      (stream.dir.dirNode = parent → place ∉ m.from_ stream.dir.next)) : Tracked n (stream.watch n) := by
  have nodup := sound.consistent.nodup stream.dir.dirNode
  have only : ∀ {watched : List Place} (p : Place → Bool), watched.filter p ⊆ watched := fun _ => filter_subset_self _
  cases changes with
  | same tree =>
    have children : n.childrenOf = m.childrenOf := congrArg NamedTree.children tree
    apply h.watch
    · intro _ _ tracks
      rw [children]
      exact tracks.mono (only _)
    · intro live dead
      rw [← nodes_isSome, ← tree, nodes_isSome, dead] at live
      exact nomatch live
  | @made parent dir leaf ptr isDir _ there isParent free fresh tree =>
    have children : n.childrenOf = update m.childrenOf parent (.block ptr :: m.childrenOf parent) :=
      congrArg NamedTree.children tree
    apply h.watch
    · intro live _ tracks
      by_cases own : stream.dir.dirNode = parent
      · subst own
        have absent : Place.block ptr ∉ m.childrenOf stream.dir.dirNode := by
          intro inside
          have lives := sound.child_live inside
          rw [fresh] at lives
          exact nomatch lives
        rw [children, update_self]
        exact (tracks.cons absent).mono (only _)
      · rw [children, update_of_ne own]
        exact tracks.mono (only _)
    · intro live dead
      have other : stream.dir.dirNode ≠ .block ptr := by
        intro same
        rw [same, fresh] at live
        exact nomatch live
      rw [← nodes_isSome, ← NamedTree.insert_entry other, ← tree, nodes_isSome, dead] at live
      exact nomatch live
  | @removed place q node _ removes there inner empty up tree =>
    have children : n.childrenOf = update m.childrenOf q ((m.childrenOf q).erase place) :=
      congrArg NamedTree.children tree
    apply h.watch
    · intro live _ tracks
      by_cases own : stream.dir.dirNode = q
      · subst own
        rw [children, update_self]
        exact tracks.erase nodup (keeps place removes)
      · rw [children, update_of_ne own]
        exact tracks.mono (only _)
    · intro live dead
      by_cases self : stream.dir.dirNode = place
      · rw [self, empty]
      · rw [← nodes_isSome, ← NamedTree.remove_entry self, ← tree, nodes_isSome, dead] at live
        exact nomatch live
  | @moved place q parent node dir leaf _ renames there inner up dirThere isParent free tree =>
    have children : n.childrenOf = update (update m.childrenOf q ((m.childrenOf q).erase place)) parent
        (place :: update m.childrenOf q ((m.childrenOf q).erase place) parent) :=
      congrArg NamedTree.children tree
    obtain ⟨other, still⟩ := stands place parent renames
    obtain ⟨q', up', -, inside⟩ := sound.linked.parent place node there inner nofun
    rw [up] at up'
    cases up'
    apply h.watch
    · intro live _ tracks
      by_cases own : stream.dir.dirNode = parent
      · subst own
        rw [children, update_self]
        by_cases within : stream.dir.dirNode = q
        · subst within
          rw [update_self]
          refine (tracks.front inside fun done ahead split here => ?_).mono (only _)
          have rest := still rfl
          rwa [here, from_ahead sound live split] at rest
        · rw [update_of_ne within]
          refine (tracks.cons fun again => within ?_).mono (only _)
          obtain ⟨-, child, sits, up'⟩ := sound.linked.child _ live place again
          rw [there] at sits
          cases sits
          exact Option.some.inj (up'.symm.trans up)
      · rw [children, update_of_ne own]
        by_cases within : stream.dir.dirNode = q
        · subst within
          rw [update_self]
          exact tracks.erase nodup other
        · rw [update_of_ne within]
          exact tracks.mono (only _)
    · intro live dead
      have lives : (n.tree.entry stream.dir.dirNode).isSome := by
        rw [tree]
        by_cases self : stream.dir.dirNode = place
        · rw [self, NamedTree.move_entry_self]
          rfl
        · rwa [NamedTree.move_entry self, nodes_isSome]
      rw [nodes_isSome, dead] at lives
      exact nomatch lives

theorem Tracked.readdir (sound : m.Sound) (h : Tracked m stream) : Tracked m (stream.readdir m) := by
  cases next : stream.dir.next with
  | none =>
    have same : stream.readdir m = stream := by
      unfold Stream.readdir Mount.vfsReaddir
      simp only [next, Option.toList_none, append_nil]
    rwa [same]
  | some place =>
    have dir : (m.vfsReaddir stream.dir).1 =
        { stream.dir with next := m.next place, pos := stream.dir.pos + 1 } := by
      unfold Mount.vfsReaddir
      simp only [next]
      rfl
    constructor
    · intro stays
      obtain ⟨live, tracks⟩ := h.stays stays
      rw [next] at tracks
      obtain ⟨done, rest, split, tracks⟩ := tracks.advance (sound.consistent.nodup stream.dir.dirNode)
      have chain := children_chain sound live
      rw [split] at chain
      unfold Stream.readdir
      rw [dir, next]
      refine ⟨live, ?_⟩
      rw [← chain.rest.head] at tracks
      exact tracks
    · intro gone
      exact nomatch next.symm.trans (h.gone gone).1

theorem seekLoop_chain {next : Place → Option Place} {start : Option Place} {xs : List Place}
    (h : LinkedList.Chain next start xs) (skip pos : Nat) : (seekLoop next skip start pos).1 = (xs.drop skip).head? := by
  induction skip generalizing start xs pos with
  | zero => exact h.head
  | succ skip ih =>
    cases xs with
    | nil =>
      rw [show start = none from h]
      rfl
    | cons place xs =>
      rw [h.1]
      exact ih h.2 (pos + 1)

theorem Tracked.seekdir (sound : m.Sound) (h : Tracked m stream) {offset : Int}
    (stays : 0 ≤ offset → stream.stays = true) : Tracked m (stream.seekdir m offset) := by
  unfold Stream.seekdir
  by_cases negative : offset < 0
  · rwa [if_pos negative]
  · rw [if_neg negative]
    have stays := stays (Int.not_lt.mp negative)
    obtain ⟨live, -⟩ := h.stays stays
    have split := (take_append_drop offset.toNat (m.childrenOf stream.dir.dirNode)).symm
    have next : (m.vfsSeekdir stream.dir offset).next = ((m.childrenOf stream.dir.dirNode).drop offset.toNat).head? := by
      unfold Mount.vfsSeekdir
      rw [if_neg negative]
      exact seekLoop_chain (children_chain sound live) _ _
    have node : (m.vfsSeekdir stream.dir offset).dirNode = stream.dir.dirNode := by
      unfold Mount.vfsSeekdir
      rw [if_neg negative]
    refine ⟨fun _ => ?_, fun gone => nomatch stays.symm.trans gone⟩
    simp only [node, next, from_ahead sound live split]
    refine ⟨live, ?_⟩
    have nodup : (m.childrenOf stream.dir.dirNode).Nodup := sound.consistent.nodup stream.dir.dirNode
    rw [split] at nodup
    have tracks := tracks_start nodup
    rwa [← split] at tracks

theorem Tracked.opendir (sound : m.Sound) {path : List UInt8} {backed : Bool} {dir : RamfsDir}
    (opens : m.vfsOpendir path backed = .ok dir) : Tracked m ⟨dir, true, m.childrenOf dir.dirNode, []⟩ := by
  unfold Mount.vfsOpendir at opens
  cases found : m.findNode path with
  | error errno =>
    rw [found] at opens
    exact nomatch opens
  | ok place =>
    rw [found] at opens
    simp only at opens
    split at opens
    · exact nomatch opens
    · split at opens
      · exact nomatch opens
      · cases opens
        have live := sound.findNode_live found
        refine ⟨fun _ => ⟨live, ?_⟩, nofun⟩
        have tracks := @tracks_start Place _ [] (m.childrenOf place) (sound.consistent.nodup place)
        rwa [nil_append, ← (children_chain sound live).head] at tracks

end Turns

/-- What holds of a mount and its streams as long as calls are careful. -/
structure Inv (s : Streams) : Prop where
  sound : s.mount.Sound
  tracked : ∀ stream, some stream ∈ s.streams → Tracked s.mount stream

theorem Inv.modify (h : s.Inv) (dir : Nat) {f : Stream → Stream}
    (keeps : ∀ stream, s.streams[dir]? = some (some stream) → Tracked s.mount (f stream)) :
    Inv { s with streams := s.streams.modify dir (Option.map f) } := by
  refine ⟨h.sound, fun stream there => ?_⟩
  obtain ⟨i, here⟩ := mem_iff_getElem?.mp there
  rw [getElem?_modify] at here
  by_cases self : dir = i
  · subst self
    simp only [if_true, Option.map_eq_map] at here
    obtain ⟨old, sits, same⟩ := Option.map_eq_some_iff.mp here
    obtain ⟨before, rfl, rfl⟩ := Option.map_eq_some_iff.mp same
    exact keeps before sits
  · simp only [if_neg self, Option.map_eq_map, Option.map_id'] at here
    exact h.tracked stream (mem_of_getElem? here)

theorem Inv.step (h : s.Inv) (turn : Turn) (careful : s.Careful turn) : (s.step turn).Inv := by
  cases turn with
  | call call =>
    obtain ⟨sound, changes⟩ := h.sound.call call
    refine ⟨sound, fun stream there => ?_⟩
    obtain ⟨old, before, same⟩ := mem_map.mp there
    obtain ⟨stream, rfl, rfl⟩ := Option.map_eq_some_iff.mp same
    obtain ⟨keeps, stands⟩ := careful stream before
    exact (h.tracked stream before).call h.sound changes keeps stands
  | opendir path backed =>
    simp only [Streams.step]
    cases opens : s.mount.vfsOpendir path backed with
    | error errno => exact h
    | ok dir =>
      refine ⟨h.sound, fun stream there => ?_⟩
      rcases mem_append.mp there with before | new
      · exact h.tracked stream before
      · cases mem_singleton.mp new
        exact Tracked.opendir h.sound opens
  | readdir dir => exact h.modify dir fun stream there => (h.tracked stream (mem_of_getElem? there)).readdir h.sound
  | seekdir dir offset =>
    refine h.modify dir fun stream there => (h.tracked stream (mem_of_getElem? there)).seekdir h.sound ?_
    exact fun forward => careful forward stream there
  | closedir dir =>
    refine ⟨h.sound, fun stream there => ?_⟩
    rcases mem_or_eq_of_mem_set there with before | new
    · exact h.tracked stream before
    · exact nomatch new

end Streams

open Streams

/-- In a run of careful turns every stream is valid in every state. -/
theorem streams_valid (memory : Memory) (arena quota : Nat) (m : Mount) (mounted : mount memory arena quota = .ok m)
    (space : arena + quota ≤ 2 ^ 32) (turns : List Turn) (careful : Machine.Admits step Careful (start m) turns)
    (stream : Stream) (there : some stream ∈ (run step (start m) turns).streams) :
    Valid (run step (start m) turns).mount stream := by
  have first : (start m).Inv := ⟨mount_sound mounted space, nofun⟩
  have inv : Inv (run step (start m) turns) :=
    run_induct (P := Inv) (fun _ turn inv careful => Inv.step inv turn careful) first careful
  exact (inv.tracked stream there).valid inv.sound

def listTurns : List Turn :=
  [.call (.mkdir [slash, 97]), .opendir [slash] true, .readdir 0, .call (.mkdir [slash, 98]), .readdir 0]

theorem streams_valid_sample : Valid (run step (start (Mount.fresh Session.sampleHeap)) listTurns).mount
      ⟨⟨.root, none, 1⟩, true, [.block 4112], [.block 4112]⟩ := by
  have nothing : ∀ path s, Careful s (.call (.mkdir path)) := fun _ _ _ _ => ⟨fun _ no => no.elim, fun _ _ no => no.elim⟩
  exact streams_valid ⟨fun _ => 0⟩ 4096 1024 (Mount.fresh Session.sampleHeap) rfl (by decide) listTurns
    ⟨nothing _ _, trivial, trivial, nothing _ _, trivial, trivial⟩ _ (by decide +kernel)

def danglingTurns : List Turn := [.call (.mkdir [slash, 97]), .opendir [slash] true, .call (.rmdir [slash, 97])]

theorem stream_dangles : some ⟨⟨.root, some (.block 4112), 0⟩, true, [], []⟩ ∈
        (run step (start (Mount.fresh Session.sampleHeap)) danglingTurns).streams ∧
      ¬∀ stream, some stream ∈ (run step (start (Mount.fresh Session.sampleHeap)) danglingTurns).streams →
        Valid (run step (start (Mount.fresh Session.sampleHeap)) danglingTurns).mount stream := by
  have there : some ⟨⟨.root, some (.block 4112), 0⟩, true, [], []⟩ ∈
      (run step (start (Mount.fresh Session.sampleHeap)) danglingTurns).streams := by decide +kernel
  have dead : ((run step (start (Mount.fresh Session.sampleHeap)) danglingTurns).mount.nodes (.block 4112)).isSome =
      false := by decide +kernel
  refine ⟨there, fun valid => ?_⟩
  have live := ((valid _ there).next (.block 4112) rfl).1
  exact nomatch dead.symm.trans live

end SolarOs.Ramfs
