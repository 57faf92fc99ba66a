import Mathlib.Data.Finset.Card
import Mathlib.Data.List.Nodup
import Mathlib.Logic.Function.Basic

/-! Trees of named entries, kept as parent pointers and lists of children: entries are
added first in their directory, removed, and moved. -/

structure TreeEntry (κ ν : Type*) where
  name : ν
  isDir : Bool
  parent : Option κ

/-- The entries, the children of each, and how many files and directories there are said to be. -/
@[ext]
structure NamedTree (κ ν : Type*) where
  entry : κ → Option (TreeEntry κ ν)
  children : κ → List κ
  fileCount : Nat
  dirCount : Nat

namespace NamedTree
open Function Finset
variable {κ ν : Type*} [DecidableEq κ] {t : NamedTree κ ν} {root x y parent : κ} {name : ν} {isDir : Bool}

section
variable (t : NamedTree κ ν)

def insert (x parent : κ) (name : ν) (isDir : Bool) : NamedTree κ ν where
  entry := update t.entry x (some ⟨name, isDir, some parent⟩)
  children := update t.children parent (x :: t.children parent)
  fileCount := if isDir then t.fileCount else t.fileCount + 1
  dirCount := if isDir then t.dirCount + 1 else t.dirCount

def remove (x q : κ) (isDir : Bool) : NamedTree κ ν where
  entry := update t.entry x none
  children := update t.children q ((t.children q).erase x)
  fileCount := if isDir then t.fileCount else t.fileCount - 1
  dirCount := if isDir then t.dirCount - 1 else t.dirCount

/-- An entry is taken from the children of `q` and put first in another directory. -/
def move (x q parent : κ) (name : ν) (isDir : Bool) : NamedTree κ ν :=
  let children := update t.children q ((t.children q).erase x)
  { t with
    entry := update t.entry x (some ⟨name, isDir, some parent⟩)
    children := update children parent (x :: children parent) }

structure Consistent (root : κ) : Prop where
  top : ∃ e, t.entry root = some e ∧ e.isDir = true ∧ e.parent = none
  child : ∀ p, (t.entry p).isSome → ∀ c ∈ t.children p, ∃ e, t.entry c = some e ∧ e.parent = some p
  parent : ∀ p e, t.entry p = some e → p ≠ root →
    ∃ q, e.parent = some q ∧ (t.entry q).isSome ∧ p ∈ t.children q
  nodup : ∀ p, (t.children p).Nodup
  file : ∀ p e, t.entry p = some e → e.isDir = false → t.children p = []

inductive Under (t : NamedTree κ ν) (root : κ) : κ → Prop
  | root : Under t root root
  | child {p q : κ} {e : TreeEntry κ ν} : t.entry p = some e → e.parent = some q → Under t root q → Under t root p

/-- From an entry the parents lead to `x`. -/
inductive Inside (t : NamedTree κ ν) (x : κ) : κ → Prop
  | self : Inside t x x
  | child {p q : κ} {e : TreeEntry κ ν} : t.entry p = some e → e.parent = some q → Inside t x q → Inside t x p

def Distinct : Prop :=
  ∀ p, (t.entry p).isSome → ∀ c ∈ t.children p, ∀ c' ∈ t.children p, ∀ e e',
    t.entry c = some e → t.entry c' = some e' → e.name = e'.name → c = c'

def ofKind (live : Finset κ) (isDir : Bool) : Finset κ :=
  live.filter fun p => (t.entry p).map TreeEntry.isDir = some isDir

def Counted : Prop :=
  ∃ live : Finset κ, (∀ p, p ∈ live ↔ (t.entry p).isSome) ∧
    t.fileCount = (t.ofKind live false).card ∧ t.dirCount = (t.ofKind live true).card

def Rooted (root : κ) : Prop := ∀ p, (t.entry p).isSome → Under t root p

/-- A finite tree of entries below the root, counted and with distinct names. -/
structure WellFormed (root : κ) : Prop where
  consistent : t.Consistent root
  rooted : t.Rooted root
  distinct : t.Distinct
  counted : t.Counted

end

omit [DecidableEq κ] in
theorem not_under_self {t : NamedTree κ ν} {root x : κ} {e : TreeEntry κ ν} (there : t.entry x = some e)
    (up : e.parent = some x) (inner : x ≠ root) : ¬Under t root x := by
  suffices ∀ p, Under t root p → p ≠ x from fun way => this x way rfl
  intro p way
  induction way with
  | root => exact inner.symm
  | child sits up' _ ih =>
    rintro rfl
    cases there.symm.trans sits
    cases up.symm.trans up'
    exact ih rfl

section Entries
variable {q p : κ}

@[simp] theorem insert_entry_self : (t.insert x parent name isDir).entry x = some ⟨name, isDir, some parent⟩ :=
  update_self _ _ _

theorem insert_entry (other : p ≠ x) : (t.insert x parent name isDir).entry p = t.entry p :=
  update_of_ne other _ _

@[simp] theorem remove_entry_self : (t.remove x q isDir).entry x = none := update_self _ _ _

theorem remove_entry (other : p ≠ x) : (t.remove x q isDir).entry p = t.entry p := update_of_ne other _ _

@[simp] theorem move_entry_self : (t.move x q parent name isDir).entry x = some ⟨name, isDir, some parent⟩ :=
  update_self _ _ _

theorem move_entry (other : p ≠ x) : (t.move x q parent name isDir).entry p = t.entry p :=
  update_of_ne other _ _

theorem insert_children :
    (t.insert x parent name isDir).children = update t.children parent (x :: t.children parent) := rfl

theorem move_children : (t.move x q parent name isDir).children =
    update (update t.children q ((t.children q).erase x)) parent
      (x :: update t.children q ((t.children q).erase x) parent) := rfl

end Entries

section Insert
variable (fresh : t.entry x = none)
include fresh

theorem under_insert {p : κ} (h : Under t root p) : Under (t.insert x parent name isDir) root p := by
  induction h with
  | root => exact .root
  | @child p q e there up _ ih =>
    have other : p ≠ x := by
      rintro rfl
      exact nomatch fresh.symm.trans there
    exact .child ((insert_entry other).trans there) up ih

theorem Rooted.insert (h : t.Rooted root) (live : (t.entry parent).isSome) :
    (t.insert x parent name isDir).Rooted root := by
  intro p here
  by_cases self : p = x
  · subst self
    exact .child insert_entry_self rfl (under_insert fresh (h parent live))
  · apply under_insert fresh
    apply h
    rwa [insert_entry self] at here

end Insert

theorem Rooted.remove {q : κ} (h : t.Rooted root) (c : t.Consistent root)
    (none : t.children x = []) : (t.remove x q isDir).Rooted root := by
  have keep : ∀ p, Under t root p → p ≠ x → Under (t.remove x q isDir) root p := by
    intro p way
    induction way with
    | root => exact fun _ => .root
    | @child p r e there up _ ih =>
      intro other
      by_cases top : p = root
      · rw [top]
        exact .root
      · have notParent : r ≠ x := by
          rintro rfl
          obtain ⟨r', up', -, inside⟩ := c.parent p e there top
          cases up.symm.trans up'
          rw [none] at inside
          exact List.not_mem_nil inside
        exact .child ((remove_entry other).trans there) up (ih notParent)
  intro p here
  have other : p ≠ x := by
    rintro rfl
    rw [remove_entry_self] at here
    exact nomatch here
  rw [remove_entry other] at here
  exact keep p (h p here) other

section Move
variable {q : κ}

theorem under_move {p : κ} (h : Under t root p) (apart : ¬Inside t x p) : Under (t.move x q parent name isDir) root p := by
  induction h with
  | root => exact .root
  | @child p r e there up _ ih =>
    have other : p ≠ x := by
      rintro rfl
      exact apart .self
    refine .child ((move_entry other).trans there) up (ih fun inner => apart ?_)
    exact .child there up inner

theorem Rooted.move (h : t.Rooted root) (live : (t.entry parent).isSome) (apart : ¬Inside t x parent)
    (there : (t.entry x).isSome) : (t.move x q parent name isDir).Rooted root := by
  have here : Under (t.move x q parent name isDir) root x :=
    .child move_entry_self rfl (under_move (h parent live) apart)
  have keep : ∀ p, Under t root p → Under (t.move x q parent name isDir) root p := by
    intro p way
    induction way with
    | root => exact .root
    | @child p r e sits up _ ih =>
      by_cases self : p = x
      · rw [self]
        exact here
      · exact .child ((move_entry self).trans sits) up ih
  intro p inside
  apply keep p
  apply h
  by_cases self : p = x
  · rw [self]
    exact there
  · rwa [move_entry self] at inside

theorem not_rooted_move (c : t.Consistent root) (inner : x ≠ root) (inside : Inside t x parent) :
    ¬(t.move x q parent name isDir).Rooted root := by
  have apart : ∀ p, Under (t.move x q parent name isDir) root p → ¬Inside t x p := by
    intro p way
    induction way with
    | root =>
      obtain ⟨e, there, -, top⟩ := c.top
      intro within
      cases within with
      | self => exact inner rfl
      | child there' up _ =>
        rw [there] at there'
        cases there'
        exact nomatch top.symm.trans up
    | @child p r e there up _ ih =>
      intro within
      apply ih
      by_cases self : p = x
      · subst self
        rw [move_entry_self] at there
        cases there
        cases up
        exact inside
      · rw [move_entry self] at there
        cases within with
        | self => exact absurd rfl self
        | child there' up' deeper =>
          rw [there] at there'
          cases there'
          rw [up] at up'
          cases up'
          exact deeper
  intro rooted
  refine apart x (rooted x ?_) .self
  rw [move_entry_self]
  rfl

end Move

section Siblings
variable {q p d : κ} {e : TreeEntry κ ν}

theorem mem_taken (c : t.Consistent root) (there : t.entry x = some e) (up : e.parent = some q)
    (live : (t.entry p).isSome) (inside : d ∈ update t.children q ((t.children q).erase x) p) :
    d ∈ t.children p ∧ d ≠ x := by
  by_cases own : p = q
  · subst own
    rw [update_self] at inside
    have both := (c.nodup p).mem_erase_iff.mp inside
    exact ⟨both.2, both.1⟩
  · rw [update_of_ne own] at inside
    refine ⟨inside, ?_⟩
    rintro rfl
    obtain ⟨e', there', up'⟩ := c.child p live d inside
    rw [there] at there'
    cases there'
    exact own (Option.some.inj (up'.symm.trans up))

theorem Distinct.insert (h : t.Distinct) (c : t.Consistent root) (fresh : t.entry x = none) (none : t.children x = [])
    (live : (t.entry parent).isSome) (free : ∀ c ∈ t.children parent, ∀ e, t.entry c = some e → e.name ≠ name) :
    (t.insert x parent name isDir).Distinct := by
  have old : ∀ {p d}, (t.entry p).isSome → d ∈ t.children p → d ≠ x := by
    rintro p d live inside rfl
    obtain ⟨e, there, -⟩ := c.child p live d inside
    exact nomatch fresh.symm.trans there
  intro p here d inside d' inside' e e' there there' same
  by_cases own : p = parent
  · subst own
    rw [insert_children, update_self, List.mem_cons] at inside inside'
    rcases inside with rfl | inside <;> rcases inside' with rfl | inside'
    · rfl
    · rw [insert_entry_self] at there
      rw [insert_entry (old live inside')] at there'
      cases there
      exact absurd same.symm (free d' inside' e' there')
    · rw [insert_entry (old live inside)] at there
      rw [insert_entry_self] at there'
      cases there'
      exact absurd same (free d inside e there)
    · rw [insert_entry (old live inside)] at there
      rw [insert_entry (old live inside')] at there'
      exact h p live d inside d' inside' e e' there there' same
  · rw [insert_children, update_of_ne own] at inside inside'
    have other : p ≠ x := by
      rintro rfl
      rw [none] at inside
      exact List.not_mem_nil inside
    rw [insert_entry other] at here
    rw [insert_entry (old here inside)] at there
    rw [insert_entry (old here inside')] at there'
    exact h p here d inside d' inside' e e' there there' same

theorem Distinct.remove (h : t.Distinct) (c : t.Consistent root) (there : t.entry x = some e) (up : e.parent = some q) :
    (t.remove x q isDir).Distinct := by
  intro p here d inside d' inside' f f' sits sits' same
  have other : p ≠ x := by
    rintro rfl
    rw [remove_entry_self] at here
    exact nomatch here
  rw [remove_entry other] at here
  obtain ⟨among, apart⟩ := mem_taken c there up here inside
  obtain ⟨among', apart'⟩ := mem_taken c there up here inside'
  rw [remove_entry apart] at sits
  rw [remove_entry apart'] at sits'
  exact h p here d among d' among' f f' sits sits' same

theorem Distinct.move (h : t.Distinct) (c : t.Consistent root) (there : t.entry x = some e) (up : e.parent = some q)
    (live : (t.entry parent).isSome) (free : ∀ c ∈ t.children parent, ∀ e, t.entry c = some e → e.name ≠ name) :
    (t.move x q parent name isDir).Distinct := by
  intro p here d inside d' inside' f f' sits sits' same
  have lives : (t.entry p).isSome := by
    by_cases self : p = x
    · rw [self, there]
      rfl
    · rwa [move_entry self] at here
  by_cases own : p = parent
  · subst own
    rw [move_children, update_self, List.mem_cons] at inside inside'
    rcases inside with rfl | inside <;> rcases inside' with rfl | inside'
    · rfl
    · obtain ⟨among', apart'⟩ := mem_taken c there up live inside'
      rw [move_entry_self] at sits
      rw [move_entry apart'] at sits'
      cases sits
      exact absurd same.symm (free d' among' f' sits')
    · obtain ⟨among, apart⟩ := mem_taken c there up live inside
      rw [move_entry apart] at sits
      rw [move_entry_self] at sits'
      cases sits'
      exact absurd same (free d among f sits)
    · obtain ⟨among, apart⟩ := mem_taken c there up live inside
      obtain ⟨among', apart'⟩ := mem_taken c there up live inside'
      rw [move_entry apart] at sits
      rw [move_entry apart'] at sits'
      exact h p live d among d' among' f f' sits sits' same
  · rw [move_children, update_of_ne own] at inside inside'
    obtain ⟨among, apart⟩ := mem_taken c there up lives inside
    obtain ⟨among', apart'⟩ := mem_taken c there up lives inside'
    rw [move_entry apart] at sits
    rw [move_entry apart'] at sits'
    exact h p lives d among d' among' f f' sits sits' same

end Siblings

section Counts
variable {live : Finset κ} {q : κ} {e : TreeEntry κ ν}

omit [DecidableEq κ] in
theorem ofKind_congr {t' : NamedTree κ ν} (same : ∀ p ∈ live, (t'.entry p).map TreeEntry.isDir = (t.entry p).map TreeEntry.isDir)
    (isDir : Bool) : t'.ofKind live isDir = t.ofKind live isDir := by
  apply filter_congr
  intro p there
  rw [same p there]

theorem Counted.insert (h : t.Counted) (fresh : t.entry x = none) : (t.insert x parent name isDir).Counted := by
  obtain ⟨live, lives, files, dirs⟩ := h
  have absent : x ∉ live := by
    rw [lives, fresh]
    exact Bool.false_ne_true
  have kinds : ∀ b, (t.insert x parent name isDir).ofKind (Insert.insert x live) b =
      if isDir = b then Insert.insert x (t.ofKind live b) else t.ofKind live b := by
    intro b
    have old : (t.insert x parent name isDir).ofKind live b = t.ofKind live b := by
      apply ofKind_congr
      intro p there
      rw [insert_entry]
      rintro rfl
      exact absent there
    unfold ofKind at old ⊢
    rw [filter_insert, old, insert_entry_self]
    simp
  have notThere : ∀ b, x ∉ t.ofKind live b := fun b there => absent (mem_filter.mp there).1
  refine ⟨Insert.insert x live, fun p => ?_, ?_, ?_⟩
  · rw [mem_insert]
    by_cases self : p = x
    · simp [self]
    · rw [insert_entry self, ← lives]
      simp [self]
  · rw [kinds]
    cases isDir
    · rw [if_pos rfl, card_insert_of_notMem (notThere false), ← files]
      rfl
    · exact files
  · rw [kinds]
    cases isDir
    · exact dirs
    · rw [if_pos rfl, card_insert_of_notMem (notThere true), ← dirs]
      rfl

theorem Counted.remove (h : t.Counted) (there : t.entry x = some e) : (t.remove x q e.isDir).Counted := by
  obtain ⟨live, lives, files, dirs⟩ := h
  have inside : x ∈ live := by
    rw [lives, there]
    rfl
  have kinds : ∀ b, (t.remove x q e.isDir).ofKind (live.erase x) b =
      if e.isDir = b then (t.ofKind live b).erase x else t.ofKind live b := by
    intro b
    ext p
    unfold ofKind
    by_cases self : p = x
    · subst self
      by_cases kind : e.isDir = b
      · simp [kind]
      · simp [kind, there]
    · by_cases kind : e.isDir = b
      · simp [kind, self, remove_entry self]
      · simp [kind, self, remove_entry self]
  have member : x ∈ t.ofKind live e.isDir := by
    unfold ofKind
    rw [mem_filter, there]
    exact ⟨inside, rfl⟩
  refine ⟨live.erase x, fun p => ?_, ?_, ?_⟩
  · rw [mem_erase]
    by_cases self : p = x
    · simp [self]
    · rw [remove_entry self, ← lives]
      simp [self]
  · rw [kinds]
    cases kind : e.isDir
    · rw [kind] at member
      rw [if_pos rfl, card_erase_of_mem member, ← files]
      rfl
    · exact files
  · rw [kinds]
    cases kind : e.isDir
    · exact dirs
    · rw [kind] at member
      rw [if_pos rfl, card_erase_of_mem member, ← dirs]
      rfl

theorem Counted.move (h : t.Counted) (there : t.entry x = some e) : (t.move x q parent name e.isDir).Counted := by
  obtain ⟨live, lives, files, dirs⟩ := h
  have kinds : ∀ b, (t.move x q parent name e.isDir).ofKind live b = t.ofKind live b := by
    intro b
    apply ofKind_congr
    intro p _
    by_cases self : p = x
    · rw [self, move_entry_self, there]
      rfl
    · rw [move_entry self]
  refine ⟨live, fun p => ?_, files.trans ?_, dirs.trans ?_⟩
  · rw [lives]
    by_cases self : p = x
    · rw [self, move_entry_self, there]
      rfl
    · rw [move_entry self]
  · rw [kinds]
  · rw [kinds]

end Counts

end NamedTree
