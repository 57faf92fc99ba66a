import Mathlib.Data.Finset.Card
import Mathlib.Logic.Relation

/-! A region grown in sweeps: each sweep goes through all cells in turn and marks an open one
that has a marked neighbour among those it looks at; the next looks at the others, in the
opposite order. The sweeps end, and what they mark is what can be reached. -/
namespace RegionGrowth
open List Finset

/-- Cells in their order, and the neighbours the two sweeps look at. -/
structure Grid (V : Type) where
  order : List V
  earlier : V → List V
  later : V → List V

variable {V : Type} [DecidableEq V] (g : Grid V) (isOpen : V → Prop) [DecidablePred isOpen]

def visit (near : V → List V) (s : Finset V × Bool) (v : V) : Finset V × Bool :=
  if v ∉ s.1 ∧ isOpen v ∧ ∃ u ∈ near v, u ∈ s.1 then (insert v s.1, true) else s

def sweep (near : V → List V) (order : List V) (s : Finset V × Bool) : Finset V × Bool :=
  order.foldl (visit isOpen near) s

def twoSweeps (marks : Finset V) : Finset V × Bool :=
  sweep isOpen g.later g.order.reverse (sweep isOpen g.earlier g.order (marks, false))

def rounds : Nat → Finset V → Option (Finset V)
  | 0, _ => none
  | fuel + 1, marks =>
    if (twoSweeps g isOpen marks).2 = true then rounds fuel (twoSweeps g isOpen marks).1
    else some (twoSweeps g isOpen marks).1

def Step (u v : V) : Prop := v ∈ g.order ∧ isOpen v ∧ (u ∈ g.earlier v ∨ u ∈ g.later v)

variable {g isOpen}

structure Grows (marks : Finset V) (s s' : Finset V × Bool) : Prop where
  subset : s.1 ⊆ s'.1
  still : s'.2 = false → s' = s
  more : s'.2 = true → s.2 = true ∨ s.1.card < s'.1.card
  bounded : s.1 ⊆ marks → s'.1 ⊆ marks

omit [DecidableEq V] in
theorem Grows.refl (marks : Finset V) (s : Finset V × Bool) : Grows marks s s where
  subset := Finset.Subset.refl _
  still := fun _ => rfl
  more := .inl
  bounded := id

omit [DecidableEq V] in
theorem Grows.trans {marks : Finset V} {s t u : Finset V × Bool} (h : Grows marks s t)
    (h' : Grows marks t u) : Grows marks s u where
  subset := h.subset.trans h'.subset
  still := by
    intro quiet
    have same := h'.still quiet
    rw [same] at quiet
    rw [same, h.still quiet]
  more := by
    intro flag
    rcases h'.more flag with before | grown
    · rcases h.more before with first | grown
      · exact .inl first
      · exact .inr (Nat.lt_of_lt_of_le grown (card_le_card h'.subset))
    · exact .inr (Nat.lt_of_le_of_lt (card_le_card h.subset) grown)
  bounded := fun inside => h'.bounded (h.bounded inside)

variable {near : V → List V}

theorem visit_grows {marks : Finset V} {v : V} (hv : v ∈ marks)
    (s : Finset V × Bool) : Grows marks s (visit isOpen near s v) := by
  unfold visit
  split
  · rename_i h
    constructor
    · exact subset_insert _ _
    · intro quiet
      cases quiet
    · intro _
      exact .inr (by rw [card_insert_of_notMem h.1]; exact Nat.lt_succ_self _)
    · intro inside
      exact insert_subset hv inside
  · exact .refl marks s

theorem sweep_grows {marks : Finset V} {order : List V}
    (inside : ∀ v ∈ order, v ∈ marks) (s : Finset V × Bool) : Grows marks s (sweep isOpen near order s) := by
  induction order generalizing s with
  | nil => exact .refl marks s
  | cons v order ih =>
    have first : Grows marks s (visit isOpen near s v) := visit_grows (inside v mem_cons_self) s
    exact first.trans (ih (fun u hu => inside u (mem_cons_of_mem v hu)) _)

theorem sweep_sound {order : List V} {P : V → Prop}
    (passes : ∀ v ∈ order, isOpen v → ∀ u ∈ near v, P u → P v) {s : Finset V × Bool}
    (hs : ∀ v ∈ s.1, P v) : ∀ v ∈ (sweep isOpen near order s).1, P v := by
  induction order generalizing s with
  | nil => exact hs
  | cons v order ih =>
    refine ih (fun w hw => passes w (mem_cons_of_mem v hw)) ?_
    unfold visit
    split
    · rename_i h
      obtain ⟨-, hopen, u, hu, marked⟩ := h
      intro w hw
      rcases mem_insert.mp hw with rfl | hw
      · exact passes w mem_cons_self hopen u hu (hs u marked)
      · exact hs w hw
    · exact hs

theorem sweep_closed {order : List V} {s : Finset V × Bool}
    (quiet : (sweep isOpen near order s).2 = false) {u v : V} (hv : v ∈ order) (hopen : isOpen v)
    (hu : u ∈ near v) (marked : u ∈ s.1) : v ∈ s.1 := by
  induction order generalizing s with
  | nil => cases hv
  | cons w order ih =>
    have rest : Grows order.toFinset (visit isOpen near s w)
        (sweep isOpen near order (visit isOpen near s w)) :=
      sweep_grows (fun x hx => mem_toFinset.mpr hx) _
    have first : visit isOpen near s w = s := by
      have flag : (visit isOpen near s w).2 = false := by
        rw [← rest.still quiet]
        exact quiet
      have here : Grows (insert w s.1) s (visit isOpen near s w) := visit_grows (mem_insert_self w s.1) s
      exact here.still flag
    rcases mem_cons.mp hv with rfl | hv
    · by_contra unmarked
      have flag := congrArg Prod.fst first
      rw [visit, if_pos ⟨unmarked, hopen, u, hu, marked⟩] at flag
      exact unmarked (flag ▸ mem_insert_self v s.1)
    · exact ih (by rw [← first]; exact quiet) hv marked

theorem twoSweeps_grows (marks : Finset V) : Grows g.order.toFinset (marks, false) (twoSweeps g isOpen marks) :=
  (sweep_grows (fun _ hv => mem_toFinset.mpr hv) _).trans
    (sweep_grows (fun _ hv => mem_toFinset.mpr (mem_reverse.mp hv)) _)

theorem twoSweeps_sound {P : V → Prop} (passes : ∀ u v, Step g isOpen u v → P u → P v)
    {marks : Finset V} (hs : ∀ v ∈ marks, P v) : ∀ v ∈ (twoSweeps g isOpen marks).1, P v := by
  apply sweep_sound
  · intro v hv hopen u hu
    exact passes u v ⟨mem_reverse.mp hv, hopen, .inr hu⟩
  · apply sweep_sound
    · intro v hv hopen u hu
      exact passes u v ⟨hv, hopen, .inl hu⟩
    · exact hs

theorem twoSweeps_closed {marks : Finset V} (quiet : (twoSweeps g isOpen marks).2 = false) {u v : V}
    (step : Step g isOpen u v) (marked : u ∈ marks) : v ∈ marks := by
  obtain ⟨hv, hopen, near⟩ := step
  have back : Grows g.order.toFinset (sweep isOpen g.earlier g.order (marks, false))
      (twoSweeps g isOpen marks) :=
    sweep_grows (fun v hv => mem_toFinset.mpr (mem_reverse.mp hv)) _
  have forth : Grows g.order.toFinset (marks, false) (sweep isOpen g.earlier g.order (marks, false)) :=
    sweep_grows (fun v hv => mem_toFinset.mpr hv) _
  have quiet' : (sweep isOpen g.earlier g.order (marks, false)).2 = false := by
    rw [← back.still quiet]
    exact quiet
  rcases near with near | near
  · exact sweep_closed quiet' hv hopen near marked
  · have same := forth.still quiet'
    rw [twoSweeps, same] at quiet
    exact sweep_closed quiet (mem_reverse.mpr hv) hopen near marked

theorem rounds_end {P : V → Prop} (passes : ∀ u v, Step g isOpen u v → P u → P v)
    {marks : Finset V} (inside : marks ⊆ g.order.toFinset) (hs : ∀ v ∈ marks, P v) :
    ∃ marks', marks ⊆ marks' ∧ (∀ v ∈ marks', P v) ∧
      (∀ u v, Step g isOpen u v → u ∈ marks' → v ∈ marks') ∧
      ∀ fuel, g.order.toFinset.card - marks.card < fuel → rounds g isOpen fuel marks = some marks' := by
  generalize hleft : g.order.toFinset.card - marks.card = left
  induction left using Nat.strong_induction_on generalizing marks with
  | _ left ih =>
    have grows : Grows g.order.toFinset (marks, false) (twoSweeps g isOpen marks) := twoSweeps_grows marks
    cases flag : (twoSweeps g isOpen marks).2 with
    | false =>
      have same := grows.still flag
      refine ⟨marks, Finset.Subset.refl _, hs, fun u v step => twoSweeps_closed flag step, ?_⟩
      intro fuel enough
      cases fuel with
      | zero => cases enough
      | succ fuel => rw [rounds, if_neg (by simp [flag]), same]
    | true =>
      have grown : marks.card < (twoSweeps g isOpen marks).1.card := by simpa using grows.more flag
      have inside' := grows.bounded inside
      have fits := card_le_card inside'
      obtain ⟨marks', sub, sound, closed, ends⟩ := ih _ (by omega) inside' (twoSweeps_sound passes hs) rfl
      refine ⟨marks', grows.subset.trans sub, sound, closed, ?_⟩
      intro fuel enough
      cases fuel with
      | zero => cases enough
      | succ fuel =>
        rw [rounds, if_pos flag]
        exact ends fuel (by omega)

theorem rounds_region {seed : V} (hseed : seed ∈ g.order) :
    ∃ region : Finset V, (∀ v, v ∈ region ↔ Relation.ReflTransGen (Step g isOpen) seed v) ∧
      ∀ fuel, g.order.length ≤ fuel → rounds g isOpen fuel {seed} = some region := by
  have passes (u v : V) (step : Step g isOpen u v)
      (reached : Relation.ReflTransGen (Step g isOpen) seed u) :
      Relation.ReflTransGen (Step g isOpen) seed v := reached.tail step
  obtain ⟨region, sub, sound, closed, ends⟩ := rounds_end passes
    (singleton_subset_iff.mpr (mem_toFinset.mpr hseed))
    (fun v hv => by rw [Finset.mem_singleton.mp hv])
  refine ⟨region, ?_, ?_⟩
  · intro v
    constructor
    · exact sound v
    · intro reached
      induction reached with
      | refl => exact sub (Finset.mem_singleton_self seed)
      | tail _ step ih => exact closed _ _ step ih
  · intro fuel enough
    have := toFinset_card_le g.order
    have := length_pos_of_mem hseed
    exact ends fuel (by rw [card_singleton]; omega)

end RegionGrowth
