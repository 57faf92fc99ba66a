import SolarOs.Library.RegionGrowth
import SolarOs.Sketch.Canvas

/-! Flood fill: forward and backward sweeps over the raster mark pixels in a workspace of one
bit a pixel until nothing changes; the marked pixels are then set. -/
namespace SolarOs.Sketch
open List

def workspaceGet (workspace : List UInt8) (pixel : Nat) : Bool :=
  workspace.getD (pixel / 8) 0 &&& (1 <<< UInt8.ofNat (pixel % 8)) ≠ 0

def workspaceSet (workspace : List UInt8) (pixel : Nat) : List UInt8 :=
  workspace.set (pixel / 8) (workspace.getD (pixel / 8) 0 ||| (1 <<< UInt8.ofNat (pixel % 8)))

/-- `memset` of the first bytes of a buffer to zero. -/
def clearBytes (buffer : List UInt8) (count : Nat) : List UInt8 :=
  List.replicate count 0 ++ buffer.drop count

namespace Canvas

variable (c : Canvas)

def fillWorkspaceBytes : Nat := (c.width.toNat * c.height.toNat + 7) / 8

def raster : List (Nat × Nat) :=
  (List.range c.height.toNat).flatMap fun row =>
    (List.range c.width.toNat).map fun column => (column, row)

def hasEarlier (workspace : List UInt8) (column row : Nat) : Bool :=
  (0 < column && workspaceGet workspace (row * c.width.toNat + column - 1)) ||
    (0 < row && workspaceGet workspace (row * c.width.toNat + column - c.width.toNat))

def hasLater (workspace : List UInt8) (column row : Nat) : Bool :=
  (column + 1 < c.width.toNat && workspaceGet workspace (row * c.width.toNat + column + 1)) ||
    (row + 1 < c.height.toNat &&
      workspaceGet workspace (row * c.width.toNat + column + c.width.toNat))

/-- The body of both sweeps; the state is the workspace and `expanded`. -/
def fillVisit (target : UInt8) (has : List UInt8 → Nat → Nat → Bool)
    (s : List UInt8 × Bool) (p : Nat × Nat) : List UInt8 × Bool :=
  if workspaceGet s.1 (p.2 * c.width.toNat + p.1) || c.get p.1 p.2 ≠ target then s
  else if has s.1 p.1 p.2 then (workspaceSet s.1 (p.2 * c.width.toNat + p.1), true)
  else s

def fillSweeps (target : UInt8) (workspace : List UInt8) : List UInt8 × Bool :=
  c.raster.reverse.foldl (c.fillVisit target c.hasLater)
    (c.raster.foldl (c.fillVisit target c.hasEarlier) (workspace, false))

/-- The `do … while` loop, cut off after `fuel` rounds. -/
def fillLoop (c : Canvas) (target : UInt8) : Nat → List UInt8 → Option (List UInt8)
  | 0, _ => none
  | fuel + 1, workspace =>
    if (c.fillSweeps target workspace).2 = true then
      fillLoop c target fuel (c.fillSweeps target workspace).1
    else some (c.fillSweeps target workspace).1

def fillMarked (color pattern : UInt8) (workspace : List UInt8) : Canvas :=
  (List.range (c.width.toNat * c.height.toNat)).foldl (fun c' pixel =>
    if workspaceGet workspace pixel then
      c'.set (pixel % c.width.toNat : Nat) (pixel / c.width.toNat : Nat) color pattern
    else c') c

/-- `solar_os_sketch_canvas_flood_fill`: the canvas, the workspace and what is returned; nothing
when the loop is cut off. -/
def floodFill (x y : Int) (color pattern : UInt8) (workspace : Option (List UInt8))
    (fuel : Nat) : Option (Canvas × Option (List UInt8) × Bool) :=
  match workspace with
  | none => some (c, none, false)
  | some bytes =>
    if !c.contains x y || bytes.length < c.fillWorkspaceBytes || color &&& 3 = c.get x y then
      some (c, workspace, false)
    else
      (c.fillLoop (c.get x y) fuel
        (workspaceSet (clearBytes bytes c.fillWorkspaceBytes) (c.pixel x y))).map fun marked =>
          (c.fillMarked color pattern marked, some marked, true)

end Canvas

def Adjacent (p q : Nat × Nat) : Prop :=
  p.2 = q.2 ∧ (p.1 + 1 = q.1 ∨ q.1 + 1 = p.1) ∨ p.1 = q.1 ∧ (p.2 + 1 = q.2 ∨ q.2 + 1 = p.2)

def Canvas.Component (c : Canvas) (seed p : Nat × Nat) : Prop :=
  Relation.ReflTransGen (fun p q => Adjacent p q ∧ c.contains q.1 q.2 = true ∧
    c.get q.1 q.2 = c.get seed.1 seed.2) seed p

theorem workspaceGet_set {workspace : List UInt8} {pixel pixel' : Nat}
    (inside : pixel / 8 < workspace.length) : workspaceGet (workspaceSet workspace pixel) pixel' =
      (decide (pixel = pixel') || workspaceGet workspace pixel') := by
  have bits : ∀ i j : Fin 8, (1 <<< UInt8.ofNat i) &&& (1 <<< UInt8.ofNat j) = (0 : UInt8) ↔ i ≠ j := by decide
  have table (byte : UInt8) (i j : Fin 8) : decide ((byte ||| (1 <<< UInt8.ofNat i)) &&& (1 <<< UInt8.ofNat j) ≠ 0) =
        (decide (i = j) || decide (byte &&& (1 <<< UInt8.ofNat j) ≠ 0)) := by
    rw [or_and_distrib, ← Bool.decide_or, decide_eq_decide, ne_eq, UInt8.or_eq_zero_iff, bits, not_and_or, not_not,
      or_comm]
  unfold workspaceGet workspaceSet
  by_cases same : pixel / 8 = pixel' / 8
  · rw [← same, getD_eq_getElem _ _ (by rw [length_set]; exact inside),
      getElem_set_self]
    have := table (workspace.getD (pixel / 8) 0)
      ⟨pixel % 8, Nat.mod_lt _ (by decide)⟩ ⟨pixel' % 8, Nat.mod_lt _ (by decide)⟩
    simp only [Fin.mk.injEq] at this
    have index : (pixel = pixel') = (pixel % 8 = pixel' % 8) := by
      apply propext
      omega
    simpa only [index] using this
  · have apart : pixel ≠ pixel' := by
      rintro rfl
      exact same rfl
    rw [getD_eq_getElem?_getD, getElem?_set_ne same, ← getD_eq_getElem?_getD]
    simp [apart]

theorem workspaceGet_clear {buffer : List UInt8} {count pixel : Nat} (h : pixel / 8 < count) :
    workspaceGet (clearBytes buffer count) pixel = false := by
  have zero : (clearBytes buffer count).getD (pixel / 8) 0 = 0 := by
    rw [clearBytes, getD_append _ _ _ _ (by simpa using h), getD_replicate 0 h]
  unfold workspaceGet
  rw [zero]
  simp

@[simp] theorem length_workspaceSet (workspace : List UInt8) (pixel : Nat) :
    (workspaceSet workspace pixel).length = workspace.length := length_set

namespace Canvas

variable {c : Canvas} {target : UInt8} {workspace : List UInt8}

variable {p : Nat × Nat}

theorem mem_raster : p ∈ c.raster ↔ p.1 < c.width.toNat ∧ p.2 < c.height.toNat := by
  obtain ⟨column, row⟩ := p
  simp only [raster, mem_flatMap, mem_range, mem_map, Prod.mk.injEq]
  constructor
  · rintro ⟨row', hrow, column', hcolumn, rfl, rfl⟩
    exact ⟨hcolumn, hrow⟩
  · rintro ⟨hcolumn, hrow⟩
    exact ⟨row, hrow, column, hcolumn, rfl, rfl⟩

theorem raster_length : c.raster.length = c.width.toNat * c.height.toNat := by
  simp [raster, mul_comm]

def number (c : Canvas) (p : Nat × Nat) : Nat := p.2 * c.width.toNat + p.1

theorem pixel_natCast (p : Nat × Nat) : c.pixel p.1 p.2 = c.number p := by
  simp [pixel, number]

theorem number_inj {p q : Nat × Nat} (hp : p ∈ c.raster) (hq : q ∈ c.raster)
    (same : c.number p = c.number q) : p = q := by
  have := pixel_inj (contains_natCast.mpr (mem_raster.mp hp)) (contains_natCast.mpr (mem_raster.mp hq))
    (by rw [pixel_natCast, pixel_natCast, same])
  exact Prod.ext (by omega) (by omega)

theorem number_lt (hp : p ∈ c.raster) : c.number p < c.width.toNat * c.height.toNat := by
  rw [← pixel_natCast]
  exact pixel_lt (contains_natCast.mpr (mem_raster.mp hp))

def marked (c : Canvas) (workspace : List UInt8) : Finset (Nat × Nat) :=
  {p ∈ c.raster.toFinset | workspaceGet workspace (c.number p) = true}

theorem mem_marked : p ∈ c.marked workspace ↔ p ∈ c.raster ∧ workspaceGet workspace (c.number p) = true := by
  rw [marked, Finset.mem_filter, mem_toFinset]

theorem marked_set (room : c.fillWorkspaceBytes ≤ workspace.length) (hp : p ∈ c.raster) :
    c.marked (workspaceSet workspace (c.number p)) = insert p (c.marked workspace) := by
  have byte : c.number p / 8 < workspace.length := by
    have := number_lt hp
    unfold fillWorkspaceBytes at room
    omega
  ext q
  rw [Finset.mem_insert, mem_marked, mem_marked, workspaceGet_set byte, Bool.or_eq_true, decide_eq_true_eq]
  constructor
  · rintro ⟨hq, same | bit⟩
    · exact .inl (number_inj hp hq same).symm
    · exact .inr ⟨hq, bit⟩
  · rintro (rfl | ⟨hq, bit⟩)
    · exact ⟨hp, .inl rfl⟩
    · exact ⟨hq, .inr bit⟩

def grid (c : Canvas) : RegionGrowth.Grid (Nat × Nat) where
  order := c.raster
  earlier p := (if 0 < p.1 then [(p.1 - 1, p.2)] else []) ++ if 0 < p.2 then [(p.1, p.2 - 1)] else []
  later p := (if p.1 + 1 < c.width.toNat then [(p.1 + 1, p.2)] else []) ++
    if p.2 + 1 < c.height.toNat then [(p.1, p.2 + 1)] else []

def Shows (c : Canvas) (target : UInt8) (p : Nat × Nat) : Prop := c.get p.1 p.2 = target

instance (p : Nat × Nat) : Decidable (c.Shows target p) := inferInstanceAs (Decidable (_ = _))

theorem hasEarlier_iff (hp : p ∈ c.raster) :
    c.hasEarlier workspace p.1 p.2 = true ↔ ∃ q ∈ c.grid.earlier p, q ∈ c.marked workspace := by
  obtain ⟨column, row⟩ := p
  obtain ⟨hcolumn, hrow⟩ := mem_raster.mp hp
  have left : 0 < column → row * c.width.toNat + column - 1 = c.number (column - 1, row) := by
    intro h
    simp only [number]
    omega
  have above : 0 < row → row * c.width.toNat + column - c.width.toNat = c.number (column, row - 1) := by
    intro h
    obtain ⟨row, rfl⟩ := Nat.exists_eq_add_of_lt h
    simp only [number, zero_add, Nat.add_sub_cancel, Nat.succ_mul]
    omega
  simp only [grid, hasEarlier, Bool.or_eq_true, Bool.and_eq_true, decide_eq_true_eq, mem_append,
    mem_ite_nil_right, mem_singleton, mem_marked, mem_raster]
  constructor
  · rintro (⟨inside, bit⟩ | ⟨inside, bit⟩)
    · rw [left inside] at bit
      exact ⟨_, .inl ⟨inside, rfl⟩, ⟨by omega, hrow⟩, bit⟩
    · rw [above inside] at bit
      exact ⟨_, .inr ⟨inside, rfl⟩, ⟨hcolumn, by omega⟩, bit⟩
  · rintro ⟨q, ⟨inside, rfl⟩ | ⟨inside, rfl⟩, -, bit⟩
    · exact .inl ⟨inside, by rw [left inside]; exact bit⟩
    · exact .inr ⟨inside, by rw [above inside]; exact bit⟩

theorem hasLater_iff (hp : p ∈ c.raster) :
    c.hasLater workspace p.1 p.2 = true ↔ ∃ q ∈ c.grid.later p, q ∈ c.marked workspace := by
  obtain ⟨column, row⟩ := p
  obtain ⟨hcolumn, hrow⟩ := mem_raster.mp hp
  have right : row * c.width.toNat + column + 1 = c.number (column + 1, row) := rfl
  have below : row * c.width.toNat + column + c.width.toNat = c.number (column, row + 1) := by
    simp only [number, Nat.succ_mul]
    omega
  simp only [grid, hasLater, right, below, Bool.or_eq_true, Bool.and_eq_true, decide_eq_true_eq,
    mem_append, mem_ite_nil_right, mem_singleton, mem_marked, mem_raster]
  constructor
  · rintro (⟨inside, bit⟩ | ⟨inside, bit⟩)
    · exact ⟨_, .inl ⟨inside, rfl⟩, ⟨inside, hrow⟩, bit⟩
    · exact ⟨_, .inr ⟨inside, rfl⟩, ⟨hcolumn, inside⟩, bit⟩
  · rintro ⟨q, ⟨inside, rfl⟩ | ⟨inside, rfl⟩, -, bit⟩
    · exact .inl ⟨inside, bit⟩
    · exact .inr ⟨inside, bit⟩

def InStep (c : Canvas) (s : List UInt8 × Bool) (g : Finset (Nat × Nat) × Bool) : Prop :=
  c.fillWorkspaceBytes ≤ s.1.length ∧ c.marked s.1 = g.1 ∧ s.2 = g.2

theorem fillVisit_inStep {has : List UInt8 → Nat → Nat → Bool} {near : Nat × Nat → List (Nat × Nat)}
    (hp : p ∈ c.raster) (agree : ∀ workspace, has workspace p.1 p.2 = true ↔ ∃ q ∈ near p, q ∈ c.marked workspace)
    {s : List UInt8 × Bool} {g : Finset (Nat × Nat) × Bool} (h : c.InStep s g) :
    c.InStep (c.fillVisit target has s p) (RegionGrowth.visit (c.Shows target) near g p) := by
  obtain ⟨bytes, expanded⟩ := s
  obtain ⟨marks, flag⟩ := g
  obtain ⟨room, same, rfl⟩ := h
  subst same
  have bit : workspaceGet bytes (p.2 * c.width.toNat + p.1) = true ↔ p ∈ c.marked bytes := by
    rw [mem_marked]
    exact (and_iff_right hp).symm
  by_cases marks : p ∉ c.marked bytes ∧ c.Shows target p ∧ ∃ q ∈ near p, q ∈ c.marked bytes
  · have new : ¬ (workspaceGet bytes (p.2 * c.width.toNat + p.1) || c.get p.1 p.2 ≠ target) = true := by
      have shown : c.get p.1 p.2 = target := marks.2.1
      simpa [bit, marks.1] using shown
    rw [fillVisit, if_neg new, if_pos ((agree bytes).mpr marks.2.2), RegionGrowth.visit, if_pos marks]
    exact ⟨by rw [length_workspaceSet]; exact room, marked_set room hp, rfl⟩
  · rw [RegionGrowth.visit, if_neg marks, fillVisit]
    split
    · exact ⟨room, rfl, rfl⟩
    · rename_i new
      rw [if_neg]
      · exact ⟨room, rfl, rfl⟩
      · intro found
        simp only [Bool.or_eq_true, bit, decide_eq_true_eq, not_or, ne_eq, not_not] at new
        exact marks ⟨new.1, new.2, (agree bytes).mp found⟩

theorem sweep_inStep {has : List UInt8 → Nat → Nat → Bool} {near : Nat × Nat → List (Nat × Nat)}
    {order : List (Nat × Nat)} (inside : ∀ p ∈ order, p ∈ c.raster) (agree : ∀ p ∈ c.raster, ∀ workspace,
      has workspace p.1 p.2 = true ↔ ∃ q ∈ near p, q ∈ c.marked workspace)
    {s : List UInt8 × Bool} {g : Finset (Nat × Nat) × Bool} (h : c.InStep s g) :
    c.InStep (order.foldl (c.fillVisit target has) s)
      (RegionGrowth.sweep (c.Shows target) near order g) := by
  induction order generalizing s g with
  | nil => exact h
  | cons p order ih =>
    have here := inside p mem_cons_self
    exact ih (fun q hq => inside q (mem_cons_of_mem p hq)) (fillVisit_inStep here (agree p here) h)

theorem fillSweeps_inStep {marks : Finset (Nat × Nat)}
    (h : c.InStep (workspace, false) (marks, false)) : c.InStep (c.fillSweeps target workspace)
      (RegionGrowth.twoSweeps c.grid (c.Shows target) marks) :=
  sweep_inStep (fun _ hp => mem_reverse.mp hp) (fun _ hp _ => hasLater_iff hp)
    (sweep_inStep (fun _ hp => hp) (fun _ hp _ => hasEarlier_iff hp) h)

theorem fillLoop_marks {fuel : Nat} {marks region : Finset (Nat × Nat)}
    (room : c.fillWorkspaceBytes ≤ workspace.length) (same : c.marked workspace = marks)
    (ends : RegionGrowth.rounds c.grid (c.Shows target) fuel marks = some region) :
    ∃ workspace', c.fillLoop target fuel workspace = some workspace' ∧
      c.marked workspace' = region := by
  induction fuel generalizing workspace marks with
  | zero => cases ends
  | succ fuel ih =>
    obtain ⟨room', same', flag⟩ : c.InStep (c.fillSweeps target workspace)
        (RegionGrowth.twoSweeps c.grid (c.Shows target) marks) := fillSweeps_inStep ⟨room, same, rfl⟩
    rw [RegionGrowth.rounds, ← flag] at ends
    rw [fillLoop]
    split
    · rename_i more
      rw [if_pos more] at ends
      exact ih room' same' ends
    · rename_i quiet
      rw [if_neg quiet] at ends
      exact ⟨_, rfl, by rw [same', Option.some.inj ends]⟩

theorem fillLoop_more {fuel fuel' : Nat} (le : fuel ≤ fuel') {workspace' : List UInt8}
    (ends : c.fillLoop target fuel workspace = some workspace') :
    c.fillLoop target fuel' workspace = some workspace' := by
  induction fuel generalizing workspace fuel' with
  | zero => cases ends
  | succ fuel ih =>
    obtain ⟨fuel', rfl⟩ := Nat.exists_eq_add_of_le' (Nat.zero_lt_of_lt le)
    rw [fillLoop] at ends ⊢
    split
    · rename_i more
      rw [if_pos more] at ends
      exact ih (by omega) ends
    · rename_i quiet
      rw [if_neg quiet] at ends
      exact ends

theorem step_iff {u v : Nat × Nat} (hu : u ∈ c.raster) : RegionGrowth.Step c.grid (c.Shows target) u v ↔
      Adjacent u v ∧ c.contains v.1 v.2 = true ∧ c.get v.1 v.2 = target := by
  obtain ⟨a, b⟩ := u
  obtain ⟨x, y⟩ := v
  have inside := mem_raster.mp hu
  simp only [RegionGrowth.Step, grid, Shows, Adjacent, contains_natCast, mem_raster, mem_append,
    mem_ite_nil_right, mem_singleton, Prod.mk.injEq]
  constructor
  · rintro ⟨hv, shown, near⟩
    exact ⟨by omega, hv, shown⟩
  · rintro ⟨near, hv, shown⟩
    exact ⟨hv, shown, by simp only at inside; omega⟩

theorem component_iff {seed p : Nat × Nat} (hseed : seed ∈ c.raster) : c.Component seed p ↔
      Relation.ReflTransGen (RegionGrowth.Step c.grid (c.Shows (c.get seed.1 seed.2))) seed p := by
  constructor
  · intro reached
    suffices h : p ∈ c.raster ∧ Relation.ReflTransGen
        (RegionGrowth.Step c.grid (c.Shows (c.get seed.1 seed.2))) seed p from h.2
    induction reached with
    | refl => exact ⟨hseed, .refl⟩
    | tail _ step ih =>
      exact ⟨mem_raster.mpr (contains_natCast.mp step.2.1), ih.2.tail ((step_iff ih.1).mpr step)⟩
  · intro reached
    suffices h : p ∈ c.raster ∧ c.Component seed p from h.2
    induction reached with
    | refl => exact ⟨hseed, .refl⟩
    | tail _ step ih => exact ⟨step.1, ih.2.tail ((step_iff ih.1).mp step)⟩

def setAll (c : Canvas) (color pattern : UInt8) (pixels : List (Nat × Nat)) : Canvas :=
  pixels.foldl (fun c p => c.set p.1 p.2 color pattern) c

theorem get_setAll (pixels : List (Nat × Nat)) (color pattern : UInt8) (q : Nat × Nat) :
    (c.setAll color pattern pixels).get q.1 q.2 =
      if q ∈ pixels ∧ c.contains q.1 q.2 = true ∧ patternAccepts pattern q.1 q.2 = true then
        color &&& 3
      else c.get q.1 q.2 := by
  induction pixels generalizing c with
  | nil => simp [setAll]
  | cons p pixels ih =>
    have rest : c.setAll color pattern (p :: pixels) = (c.set p.1 p.2 color pattern).setAll color pattern pixels := rfl
    rw [rest, ih, contains_set, get_set]
    by_cases later : q ∈ pixels ∧ c.contains q.1 q.2 = true ∧ patternAccepts pattern q.1 q.2 = true
    · rw [if_pos later, if_pos ⟨mem_cons_of_mem p later.1, later.2⟩]
    · rw [if_neg later]
      by_cases here : p = q
      · subst here
        simp
      · have apart : ¬ ((p.1 : Int) = q.1 ∧ (p.2 : Int) = q.2) := by
          rintro ⟨first, second⟩
          exact here (Prod.ext (by omega) (by omega))
        rw [if_neg (fun h => apart h.2), if_neg]
        rintro ⟨hq, drawn⟩
        exact later ⟨(mem_cons.mp hq).resolve_left (Ne.symm here), drawn⟩

def markedPixels (c : Canvas) (workspace : List UInt8) : List (Nat × Nat) :=
  ((List.range (c.width.toNat * c.height.toNat)).filter (workspaceGet workspace)).map
    fun pixel => (pixel % c.width.toNat, pixel / c.width.toNat)

theorem fillMarked_eq (color pattern : UInt8) :
    c.fillMarked color pattern workspace = c.setAll color pattern (c.markedPixels workspace) := by
  rw [fillMarked, setAll, markedPixels, foldl_map, foldl_filter]

theorem number_split (n : Nat) : c.number (n % c.width.toNat, n / c.width.toNat) = n := by
  rw [number, mul_comm]
  exact Nat.div_add_mod n _

theorem markedPixels_nodup : (c.markedPixels workspace).Nodup := by
  refine List.Nodup.map ?_ (nodup_range.filter _)
  intro m n same
  have := congrArg c.number same
  simpa only [number_split] using this

theorem mem_markedPixels : p ∈ c.markedPixels workspace ↔ p ∈ c.marked workspace := by
  simp only [markedPixels, mem_marked, mem_map, mem_filter, mem_range]
  constructor
  · rintro ⟨n, ⟨hn, bit⟩, rfl⟩
    have wide : 0 < c.width.toNat := Nat.pos_of_ne_zero (by rintro zero; simp [zero] at hn)
    refine ⟨mem_raster.mpr ⟨Nat.mod_lt _ wide, ?_⟩, by rw [number_split]; exact bit⟩
    exact Nat.div_lt_of_lt_mul hn
  · rintro ⟨hp, bit⟩
    refine ⟨c.number p, ⟨number_lt hp, bit⟩, ?_⟩
    obtain ⟨wide, -⟩ := mem_raster.mp hp
    rw [number, mul_comm]
    exact Prod.ext (by simp [Nat.mod_eq_of_lt wide])
      (by simp [Nat.mul_add_div (Nat.zero_lt_of_lt wide), Nat.div_eq_of_lt wide])

theorem marked_clear {bytes : List UInt8} (hp : p ∈ c.raster) :
    c.marked (workspaceSet (clearBytes bytes c.fillWorkspaceBytes) (c.number p)) = {p} := by
  have length : c.fillWorkspaceBytes ≤ (clearBytes bytes c.fillWorkspaceBytes).length := by
    simp [clearBytes]
  rw [marked_set length hp]
  have blank : c.marked (clearBytes bytes c.fillWorkspaceBytes) = ∅ := by
    apply Finset.eq_empty_of_forall_notMem
    intro q hq
    obtain ⟨inside, bit⟩ := mem_marked.mp hq
    have := number_lt inside
    rw [workspaceGet_clear (by unfold fillWorkspaceBytes; omega)] at bit
    cases bit
  rw [blank, insert_empty_eq]

def CanFill (c : Canvas) (x y : Int) (color : UInt8) (workspace : Option (List UInt8)) : Prop :=
  c.contains x y = true ∧ color &&& 3 ≠ c.get x y ∧
    ∃ bytes, workspace = some bytes ∧ c.fillWorkspaceBytes ≤ bytes.length

/-- The fill ends, whatever the region is like. It returns true when it can fill; then it has set
the pixels of the seed's component, each once, and no other pixel is changed. When it returns
false the canvas is as it was. -/
theorem floodFill_component (c : Canvas) (x y : Int) (color pattern : UInt8)
    (workspace : Option (List UInt8)) : ∃ (c' : Canvas) (workspace' : Option (List UInt8)) (filled : Bool),
      (∀ fuel, c.width.toNat * c.height.toNat ≤ fuel →
        c.floodFill x y color pattern workspace fuel = some (c', workspace', filled)) ∧
      (filled = true ↔ c.CanFill x y color workspace) ∧
      (filled = false → c' = c ∧ workspace' = workspace) ∧
      (filled = true → ∃ pixels : List (Nat × Nat), pixels.Nodup ∧
        (∀ p, p ∈ pixels ↔ c.Component (x.toNat, y.toNat) p) ∧
        c' = c.setAll color pattern pixels ∧
        ∀ p : Nat × Nat,
          (c.Component (x.toNat, y.toNat) p ∧ patternAccepts pattern p.1 p.2 = true →
            c'.get p.1 p.2 = color &&& 3) ∧
          (¬ (c.Component (x.toNat, y.toNat) p ∧ patternAccepts pattern p.1 p.2 = true) →
            c'.get p.1 p.2 = c.get p.1 p.2)) := by
  by_cases can : c.CanFill x y color workspace
  · obtain ⟨inside, colour, bytes, rfl, room⟩ := can
    obtain ⟨⟨hx, wx⟩, hy, wy⟩ := contains_iff.mp inside
    have hseed : (x.toNat, y.toNat) ∈ c.raster := mem_raster.mpr ⟨by simp only; omega, by simp only; omega⟩
    have castX : ((x.toNat : Nat) : Int) = x := Int.toNat_of_nonneg hx
    have castY : ((y.toNat : Nat) : Int) = y := Int.toNat_of_nonneg hy
    have number : c.pixel x y = c.number (x.toNat, y.toNat) := rfl
    obtain ⟨region, reaches, ends⟩ : ∃ region : Finset (Nat × Nat),
        (∀ p, p ∈ region ↔ Relation.ReflTransGen
          (RegionGrowth.Step c.grid (c.Shows (c.get x y))) (x.toNat, y.toNat) p) ∧
        ∀ fuel, c.grid.order.length ≤ fuel →
          RegionGrowth.rounds c.grid (c.Shows (c.get x y)) fuel {(x.toNat, y.toNat)} = some region :=
      RegionGrowth.rounds_region hseed
    have cleared : c.fillWorkspaceBytes ≤ (workspaceSet (clearBytes bytes c.fillWorkspaceBytes)
        (c.number (x.toNat, y.toNat))).length := by
      simp [clearBytes]
    obtain ⟨workspace', loop, marks⟩ := fillLoop_marks cleared (marked_clear hseed)
      (ends (c.width.toNat * c.height.toNat) (le_of_eq raster_length))
    have component (p : Nat × Nat) :
        p ∈ c.markedPixels workspace' ↔ c.Component (x.toNat, y.toNat) p := by
      rw [mem_markedPixels, marks, reaches, component_iff hseed]
      simp only [castX, castY]
    refine ⟨c.fillMarked color pattern workspace', some workspace', true, ?_, ?_, ?_, ?_⟩
    · intro fuel enough
      have test : ¬ (!c.contains x y || bytes.length < c.fillWorkspaceBytes ||
          color &&& 3 = c.get x y) = true := by
        simpa [inside, colour] using room
      rw [floodFill, if_neg test, number, fillLoop_more enough loop]
      rfl
    · exact iff_of_true rfl ⟨inside, colour, bytes, rfl, room⟩
    · intro no
      cases no
    · intro _
      refine ⟨c.markedPixels workspace', markedPixels_nodup, component, fillMarked_eq _ _, ?_⟩
      intro p
      rw [fillMarked_eq, get_setAll]
      constructor
      · rintro ⟨reached, accepts⟩
        have filled := (component p).mpr reached
        have hp : p ∈ c.raster := (mem_marked.mp (mem_markedPixels.mp filled)).1
        rw [if_pos ⟨filled, contains_natCast.mpr (mem_raster.mp hp), accepts⟩]
      · intro no
        rw [if_neg (fun drawn => no ⟨(component p).mp drawn.1, drawn.2.2⟩)]
  · refine ⟨c, workspace, false, ?_, ?_, fun _ => ⟨rfl, rfl⟩, ?_⟩
    · intro fuel _
      cases workspace with
      | none => rfl
      | some bytes =>
        rw [floodFill, if_pos]
        by_contra test
        simp only [Bool.or_eq_true, Bool.not_eq_true', decide_eq_true_eq, not_or, Bool.not_eq_false, not_lt] at test
        exact can ⟨test.1.1, test.2, bytes, rfl, test.1.2⟩
    · exact iff_of_false (by simp) can
    · intro no
      cases no

end Canvas

end SolarOs.Sketch
