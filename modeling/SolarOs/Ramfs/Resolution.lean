import SolarOs.Ramfs.ArenaSafety
import SolarOs.Ramfs.Calls

/-! Paths lead where their segments lead, up to the first segment that is longer than a
name can be: there the walk stops as at the end of the path. -/
namespace SolarOs.Ramfs
open List

variable {cursor rest : List UInt8} {segment : Name}

section
variable (path : List UInt8)

def segments : List (List UInt8) := (path.splitOn slash).filter (· ≠ [])

def fitting : List (List UInt8) := (segments path).takeWhile (·.length ≤ nameMax)

theorem segments_slash : segments (slash :: path) = segments path := by
  have split : (slash :: path).splitOn slash = [] :: path.splitOn slash :=
    splitOn_append_cons_self_of_not_mem not_mem_nil path
  unfold segments
  rw [split, filter_cons_of_neg (by simp)]

theorem segments_slashes : segments (path.dropWhile (· = slash)) = segments path := by
  induction path with
  | nil => rfl
  | cons c path ih =>
    by_cases skip : c = slash
    · rw [dropWhile_cons_of_pos (by simpa using skip), ih, skip, segments_slash]
    · rw [dropWhile_cons_of_neg (by simpa using skip)]

end

theorem segments_first {first after : List UInt8} (some : first ≠ []) (plain : slash ∉ first)
    (stop : after = [] ∨ ∃ path, after = slash :: path) : segments (first ++ after) = first :: segments after := by
  rcases stop with rfl | ⟨path, rfl⟩
  · have split : first.splitOn slash = [first] := splitOn_eq_singleton plain
    unfold segments
    rw [append_nil, split, filter_cons_of_pos (by simpa using some)]
    rfl
  · have split : (first ++ slash :: path).splitOn slash = first :: path.splitOn slash :=
      splitOn_append_cons_self_of_not_mem plain path
    rw [segments_slash]
    unfold segments
    rw [split, filter_cons_of_pos (by simpa using some)]

theorem nextSegment_cases (cursor : List UInt8) : nextSegment cursor = none ∧ fitting cursor = [] ∨
      ∃ segment rest, nextSegment cursor = some (segment, rest) ∧
        segments cursor = segment.bytes :: segments rest := by
  unfold nextSegment fitting
  rw [← segments_slashes cursor]
  generalize hp : cursor.dropWhile (· = slash) = p
  cases p with
  | nil => exact .inl ⟨rfl, rfl⟩
  | cons c p =>
    have plain : c ≠ slash := by
      have := head_dropWhile_not (l := cursor) (fun x => decide (x = slash)) (by rw [hp]; exact cons_ne_nil c p)
      simpa [hp] using this
    have parts : segments (c :: p) = (c :: p).takeWhile (· ≠ slash) :: segments ((c :: p).dropWhile (· ≠ slash)) := by
      have nonempty : (c :: p).takeWhile (· ≠ slash) ≠ [] := by
        rw [takeWhile_cons_of_pos (by simpa using plain)]
        exact cons_ne_nil _ _
      have noSlash : slash ∉ (c :: p).takeWhile (· ≠ slash) := by
        intro there
        simpa using all_eq_true.mp all_takeWhile _ there
      have stop : (c :: p).dropWhile (· ≠ slash) = [] ∨ ∃ path, (c :: p).dropWhile (· ≠ slash) = slash :: path := by
        cases after : (c :: p).dropWhile (· ≠ slash) with
        | nil => exact .inl rfl
        | cons d path =>
          have := head_dropWhile_not (l := c :: p) (fun x => decide (x ≠ slash))
            (by rw [after]; exact cons_ne_nil d path)
          simp only [after, head_cons, decide_eq_false_iff_not, not_not] at this
          exact .inr ⟨path, by rw [this]⟩
      have first := segments_first nonempty noSlash stop
      rwa [takeWhile_append_dropWhile] at first
    simp only [cons_ne_nil, if_false]
    split
    · exact .inr ⟨_, _, rfl, parts⟩
    · rename_i long
      refine .inl ⟨rfl, ?_⟩
      rw [parts, takeWhile_cons_of_neg (by simpa using long)]

theorem fitting_next (h : segments cursor = segment.bytes :: segments rest) :
    fitting cursor = segment.bytes :: fitting rest := by
  unfold fitting
  rw [h, takeWhile_cons_of_pos (by simpa using segment.fits)]

namespace Mount
variable (m : Mount)

def childNamed (place : Place) (segment : List UInt8) : Option Place :=
  (m.childrenOf place).find? fun child => (m.node child).name.bytes = segment

/-- Where segments lead: `.` stays, `..` goes to the parent or stays at the root, any
other segment names a child of a directory. -/
def walk : Place → List (List UInt8) → Option Place
  | place, [] => some place
  | place, segment :: rest =>
    if segment = [dot] then
      walk place rest
    else if segment = [dot, dot] then
      walk ((m.node place).parent.getD place) rest
    else if (m.node place).isDir = false then
      none
    else
      match m.childNamed place segment with
      | none => none
      | some child => walk child rest

def Names (path : List UInt8) (place : Place) : Prop :=
  path ≠ [] ∧ m.walk .root (segments path) = some place

def MeetsNoLong (path : List UInt8) : Prop :=
  fitting path = segments path ∨ m.walk .root (fitting path) = none

variable {m}

variable (place : Place)

theorem findChild_eq (name : Name) : m.findChild place name = m.childNamed place name.bytes := by
  unfold findChild childNamed childrenOf
  generalize m.heap.arenaBytes = fuel
  generalize (m.node place).children = start
  induction fuel generalizing start with
  | zero => rfl
  | succ fuel ih =>
    cases start with
    | none => rfl
    | some child =>
      have same : (m.node child).name = name ↔ (m.node child).name.bytes = name.bytes := by
        refine ⟨congrArg Name.bytes, fun bytes => ?_⟩
        generalize (m.node child).name = other at bytes
        cases other
        cases name
        cases bytes
        rfl
      rw [LinkedList.find, LinkedList.toList, find?_cons, ih]
      by_cases hit : (m.node child).name = name
      · simp [hit]
      · have miss := hit
        rw [same] at miss
        simp [hit, miss]

theorem childNamed_long {place : Place} {segment : List UInt8} (long : ¬segment.length ≤ nameMax) :
    m.childNamed place segment = none := by
  refine find?_eq_none.mpr fun child _ hit => long ?_
  rw [← of_decide_eq_true hit]
  exact (m.node child).name.fits

theorem walk_append (first after : List (List UInt8)) :
    m.walk place (first ++ after) = (m.walk place first).bind fun stop => m.walk stop after := by
  induction first generalizing place with
  | nil => rfl
  | cons segment first ih =>
    rw [cons_append, walk, walk]
    split
    · exact ih _
    · split
      · exact ih _
      · split
        · rfl
        · split
          · rfl
          · exact ih _

theorem walk_long {segment : List UInt8} (long : ¬segment.length ≤ nameMax)
    (after : List (List UInt8)) : m.walk place (segment :: after) = none := by
  have notDot : segment ≠ [dot] := by
    rintro rfl
    exact long (by decide)
  have notDots : segment ≠ [dot, dot] := by
    rintro rfl
    exact long (by decide)
  rw [walk, if_neg notDot, if_neg notDots, childNamed_long long]
  split <;> rfl

theorem findNodeFrom_eq (cursor : List UInt8) :
    (m.findNodeFrom place cursor).toOption = m.walk place (fitting cursor) := by
  induction length : cursor.length using Nat.strongRecOn generalizing place cursor with
  | _ length ih =>
    subst length
    rw [findNodeFrom]
    rcases nextSegment_cases cursor with ⟨stop, none⟩ | ⟨segment, rest, next, parts⟩
    · rw [none]
      split
      · rfl
      · rename_i more
        cases stop.symm.trans more
    · rw [fitting_next parts, walk]
      have again := fun place => ih rest.length (nextSegment_shorter next) place rest rfl
      split
      · rename_i stop
        cases stop.symm.trans next
      · rename_i segment' rest' more
        obtain ⟨rfl, rfl⟩ : segment = segment' ∧ rest = rest' := by simpa using next.symm.trans more
        split
        · exact again _
        · split
          · exact again _
          · split
            · rfl
            · rw [findChild_eq]
              cases m.childNamed place segment.bytes with
              | none => rfl
              | some child => exact again _

theorem findNode_eq_ok {path : List UInt8} {place : Place} :
    m.findNode path = .ok place ↔ path ≠ [] ∧ m.walk .root (fitting path) = some place := by
  unfold findNode
  split
  · rename_i none
    exact ⟨nofun, fun h => absurd none h.1⟩
  · rename_i some
    rw [← findNodeFrom_eq]
    cases m.findNodeFrom .root path with
    | error errno => exact ⟨nofun, fun h => nomatch h.2⟩
    | ok stop =>
      constructor
      · rintro ⟨⟩
        exact ⟨some, rfl⟩
      · rintro ⟨-, ⟨⟩⟩
        rfl

/-- `ramfs_find_node` finds exactly the node that a path names, if and only if the walk
comes to no segment that is too long. -/
theorem find_node_names_iff (m : Mount) (path : List UInt8) :
    (∀ place, m.findNode path = .ok place ↔ m.Names path place) ↔ m.MeetsNoLong path := by
  simp only [findNode_eq_ok, Names]
  constructor
  · intro same
    by_cases all : fitting path = segments path
    · exact .inl all
    · -- what is left begins with the segment that is too long
      obtain ⟨long, after, parts, tooLong⟩ : ∃ long after, segments path = fitting path ++ long :: after ∧
          ¬long.length ≤ nameMax := by
        have parts : fitting path ++ (segments path).dropWhile (·.length ≤ nameMax) = segments path :=
          takeWhile_append_dropWhile
        cases rest : (segments path).dropWhile (·.length ≤ nameMax) with
        | nil =>
          rw [rest, append_nil] at parts
          exact absurd parts all
        | cons long after =>
          rw [rest] at parts
          have first := head_dropWhile_not (l := segments path) (fun x => decide (x.length ≤ nameMax))
            (by rw [rest]; exact cons_ne_nil long after)
          simp only [rest, head_cons, decide_eq_false_iff_not] at first
          exact ⟨long, after, parts.symm, first⟩
      have nowhere : m.walk .root (segments path) = none := by
        rw [parts, walk_append]
        cases m.walk .root (fitting path) with
        | none => rfl
        | some stop => exact walk_long stop tooLong after
      have nonempty : path ≠ [] := by
        rintro rfl
        exact all rfl
      refine .inr (Option.eq_none_iff_forall_ne_some.mpr fun place found => ?_)
      have named := ((same place).mp ⟨nonempty, found⟩).2
      exact nomatch nowhere.symm.trans named
  · rintro (all | nowhere) place
    · rw [all]
    · have whole : m.walk .root (segments path) = none := by
        have parts : fitting path ++ (segments path).dropWhile (·.length ≤ nameMax) = segments path :=
          takeWhile_append_dropWhile
        rw [← parts, walk_append, nowhere]
        rfl
      rw [nowhere, whole]

end Mount

/-- A mount of 1024 bytes with one file, `/a`. -/
def sampleMount : Mount := ((Mount.fresh Session.sampleHeap).vfsOpen [slash, 97] (O_CREAT ||| O_WRONLY)).1

/-- `/a/` and 256 letters. -/
def longPath : List UInt8 := [slash, 97, slash] ++ List.replicate 256 98

/-- The path of a file with a segment behind it that is too long: unlinking it is refused
while the file is open, and removes the file once it is closed. -/
theorem longPath_unlinks_file :
    ¬(∀ place, sampleMount.findNode longPath = .ok place ↔ sampleMount.Names longPath place) ∧
      (sampleMount.vfsUnlink longPath).2 = .error .EBUSY ∧
      ((sampleMount.vfsClose 0).1.vfsUnlink longPath).2 = .ok () ∧
      ((sampleMount.vfsClose 0).1.vfsUnlink longPath).1.fileCount = 0 := by
  refine ⟨fun same => ?_, by decide +kernel, by decide +kernel, by decide +kernel⟩
  have found : sampleMount.findNode longPath = .ok (.block 4112) := by decide +kernel
  have nowhere : sampleMount.walk .root (segments longPath) = none := by decide +kernel
  exact nomatch nowhere.symm.trans ((same _).mp found).2

end SolarOs.Ramfs
