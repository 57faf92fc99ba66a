import SolarOs.Library.SlotRing
import SolarOs.Terminal.Grid

/-! What the terminal shows is what its lists of lines say: stale cells behind the end of a row stay
hidden, and only attributed spaces behind such an end are lost. -/
namespace SolarOs.Terminal
open Function List Option SlotRing

theorem attrGet_attrSet {words : Words} {col i : Nat} {enabled : Bool} (h : col < maxCols) :
    attrGet (attrSet words col enabled) i = if i = col then enabled else attrGet words i := by
  rw [attrSet, if_neg (Nat.not_le_of_lt h)]
  by_cases same : i / 32 = col / 32
  · by_cases bit : i % 32 = col % 32
    · have here : i = col := by omega
      subst here
      cases enabled <;> simp [attrGet, Nat.not_le_of_lt h, Nat.mod_lt]
    · have other : i ≠ col := fun equal => bit (by rw [equal])
      cases enabled <;> simp [attrGet, same, other, bit, Nat.mod_lt]
  · have other : i ≠ col := fun equal => same (by rw [equal])
    simp [attrGet, update_of_ne same, other]

theorem attrGet_attrClearFrom {words : Words} {col i : Nat} (h : i < col) :
    attrGet (attrClearFrom words col) i = attrGet words i := by
  unfold attrClearFrom
  suffices ∀ n col words, i < col → col + n ≤ maxCols →
      attrGet ((List.range' col n).foldl (fun words i => attrSet words i false) words) i =
        attrGet words i by
    by_cases inside : col ≤ maxCols
    · exact this _ _ _ h (by omega)
    · rw [Nat.sub_eq_zero_of_le (by omega)]
      rfl
  intro n
  induction n with
  | zero => intros; rfl
  | succ n ih =>
    intro col words before inside
    rw [range'_succ, foldl_cons, ih (col + 1) _ (by omega) (by omega),
      attrGet_attrSet (by omega), if_neg (by omega)]

variable {row : Row} {col i : Nat} {glyph : Glyph}

theorem Row.glyph_write (h : col < maxCols) :
    (row.write col glyph).glyph i = if i = col then glyph else row.glyph i := by
  simp only [Row.glyph, write, attrGet_attrSet h, update_apply]
  split <;> rfl

theorem Row.cells_write : (row.write col glyph).cells i = if i = col then glyph.1 else row.cells i :=
  update_apply _ _ _ _

theorem Row.glyph_fill {stop : Nat} (h : stop ≤ maxCols) :
    (row.fill col stop glyph).glyph i = if col ≤ i ∧ i < stop then glyph else row.glyph i := by
  unfold fill
  suffices ∀ n col row, col + n ≤ maxCols →
      Row.glyph ((List.range' col n).foldl (fun row col => row.write col glyph) row) i =
        if col ≤ i ∧ i < col + n then glyph else row.glyph i by
    by_cases some : col ≤ stop
    · rw [this _ _ _ (by omega), Nat.add_sub_cancel' some]
    · rw [Nat.sub_eq_zero_of_le (by omega), if_neg (by omega)]
      rfl
  intro n
  induction n with
  | zero =>
    intro col row _
    rw [if_neg (by omega)]
    rfl
  | succ n ih =>
    intro col row inside
    rw [range'_succ, foldl_cons, ih (col + 1) _ (by omega), glyph_write (by omega)]
    by_cases first : i = col
    · rw [if_neg (by omega), if_pos first, if_pos (by omega)]
    · rw [if_neg first]
      congr 1
      rw [eq_iff_iff]
      omega

theorem Row.glyph_setCell (h : i ≠ col) {cell : UInt16} : (row.setCell col cell).glyph i = row.glyph i := by
  simp only [Row.glyph, setCell, update_of_ne h]

theorem Row.glyph_wipe (h : i < col) : (row.wipe col).glyph i = row.glyph i := by
  simp only [Row.glyph, wipe, attrGet_attrClearFrom h, Nat.not_le_of_lt h, false_and, if_false]

/-- The line that a row shows, told by its glyphs and the empty cell behind them. -/
structure Shows (g : Geometry) (row : Row) (text : List Glyph) : Prop where
  length_le : text.length ≤ g.cols
  glyphs : ∀ i glyph, text[i]? = some glyph → row.glyph i = glyph ∧ glyph.1 ≠ 0
  stop : text.length < g.cols → row.cells text.length = 0

variable {g : Geometry} {line : List Glyph}

theorem lineLen_le : lineLen g row ≤ g.cols := by
  have := @findIdx_le_length _ (fun len => decide (row.cells len = 0)) (List.range g.cols)
  rwa [length_range] at this

theorem shows_shown (row : Row) : Shows g row (shown g row) where
  length_le := by
    rw [shown, length_map, length_range]
    exact lineLen_le
  glyphs i glyph found := by
    rw [shown, getElem?_map, map_eq_some_iff] at found
    obtain ⟨j, at_i, rfl⟩ := found
    obtain ⟨inside, rfl⟩ := List.getElem?_eq_some_iff.mp at_i
    rw [length_range] at inside
    have filled := not_of_lt_findIdx inside
    simp only [getElem_range, decide_eq_false_iff_not] at filled ⊢
    exact ⟨trivial, filled⟩
  stop short := by
    rw [shown, length_map, length_range] at short ⊢
    have empty := @findIdx_getElem _ (fun len => decide (row.cells len = 0)) (List.range g.cols) (by rwa [length_range])
    simpa [lineLen] using empty

theorem Shows.unique {other : List Glyph} (h : Shows g row line) (h' : Shows g row other) : line = other := by
  have same {xs ys : List Glyph} (hx : Shows g row xs) (hy : Shows g row ys) :
      ¬ xs.length < ys.length := by
    intro shorter
    have empty := hx.stop (lt_of_lt_of_le shorter hy.length_le)
    have filled := hy.glyphs _ _ (getElem?_eq_getElem shorter)
    rw [← filled.1] at filled
    exact filled.2 empty
  have lengths : line.length = other.length := le_antisymm (Nat.le_of_not_lt (same h' h)) (Nat.le_of_not_lt (same h h'))
  apply ext_getElem lengths
  intro i inside inside'
  rw [← (h.glyphs i _ (getElem?_eq_getElem inside)).1, ← (h'.glyphs i _ (getElem?_eq_getElem inside')).1]

section
variable (h : Shows g row line)
include h

theorem Shows.eq : shown g row = line := (shows_shown row).unique h

theorem Shows.lineLen : lineLen g row = line.length := by
  rw [← h.eq, shown, length_map, length_range]

theorem Shows.setCell (behind : line.length ≤ col) : Shows g (row.setCell col 0) line where
  length_le := h.length_le
  glyphs i glyph found := by
    have inside := (List.getElem?_eq_some_iff.mp found).1
    rw [Row.glyph_setCell (by omega)]
    exact h.glyphs i glyph found
  stop short := by
    simp only [Row.setCell, update_apply]
    split
    · rfl
    · exact h.stop short

theorem Shows.take (inside : col < g.cols) : Shows g (row.write col (0, .plain)) (line.take col) where
  length_le := le_trans (length_take_le' _ _) h.length_le
  glyphs i glyph found := by
    rw [getElem?_take] at found
    split at found
    · rw [Row.glyph_write (lt_of_lt_of_le inside g.cols_le), if_neg (by omega)]
      exact h.glyphs i glyph found
    · contradiction
  stop short := by
    rw [length_take] at short ⊢
    rw [Row.cells_write]
    split
    · rfl
    · rw [Nat.min_eq_right (by omega)] at short ⊢
      exact h.stop short

theorem Shows.wipe : Shows g (row.wipe col) (line.take col) where
  length_le := le_trans (length_take_le' _ _) h.length_le
  glyphs i glyph found := by
    rw [getElem?_take] at found
    split at found
    · rename_i before
      rw [Row.glyph_wipe before]
      exact h.glyphs i glyph found
    · contradiction
  stop short := by
    have fits := g.cols_le
    rw [length_take] at short ⊢
    simp only [Row.wipe]
    split
    · rfl
    · rw [Nat.min_eq_right (by omega)] at short ⊢
      exact h.stop short

theorem Shows.stretch {pen : Attrs} (inside : col ≤ line.length) :
    Shows g ((row.fill col g.cols (space, pen)).setCell g.cols 0) (Screen.stretch g col pen line) := by
  have padded : line.rightpad col blank = line := by
    rw [List.rightpad, Nat.sub_eq_zero_of_le inside]
    exact append_nil line
  have length : (Screen.stretch g col pen line).length = g.cols := by
    have := h.length_le
    rw [Screen.stretch, padded, length_append, length_take, length_replicate]
    omega
  refine ⟨le_of_eq length, fun i glyph found => ?_, fun short => absurd length (ne_of_lt short)⟩
  have before := (List.getElem?_eq_some_iff.mp found).1
  rw [length] at before
  rw [Row.glyph_setCell (by omega), Row.glyph_fill g.cols_le]
  rw [Screen.stretch, padded, getElem?_append, length_take, Nat.min_eq_left inside] at found
  split at found
  · rename_i kept
    rw [getElem?_take_of_lt kept] at found
    rw [if_neg (by omega)]
    exact h.glyphs i glyph found
  · rename_i behind
    obtain ⟨-, rfl⟩ := List.getElem?_eq_some_iff.mp found
    rw [getElem_replicate, if_pos (by omega)]
    exact ⟨rfl, by show space ≠ 0; decide⟩

theorem Shows.place (inside : col < g.cols) (filled : glyph.1 ≠ 0) :
    Shows g (putRow g row col glyph) (Screen.place col glyph line) := by
  have fits := g.cols_le
  have at_i (i : Nat) : ((row.fill line.length col blank).write col glyph).glyph i =
      if i = col then glyph else if line.length ≤ i ∧ i < col then blank else row.glyph i := by
    rw [Row.glyph_write (by omega), Row.glyph_fill (by omega)]
  unfold putRow Screen.place
  rw [h.lineLen]
  by_cases within : col < line.length
  · rw [if_pos within, if_neg (by omega)]
    refine ⟨by rw [length_set]; exact h.length_le, fun i other found => ?_, fun short => ?_⟩
    · rw [at_i]
      rw [getElem?_set] at found
      split at found
      · rename_i here
        rw [if_pos here.symm, ← Option.some.inj found]
        exact ⟨rfl, filled⟩
      · have := (List.getElem?_eq_some_iff.mp found).1
        rw [if_neg (by omega), if_neg (by omega)]
        exact h.glyphs i other found
    · rw [length_set] at short ⊢
      have empty := congrArg Prod.fst (at_i line.length)
      rw [if_neg (by omega), if_neg (by omega)] at empty
      exact empty.trans (h.stop short)
  · rw [if_neg within, if_pos (by omega)]
    have length : (line.rightpad col blank).length = col := by
      rw [List.rightpad, length_append, length_replicate]
      omega
    refine ⟨?_, fun i other found => ?_, fun short => ?_⟩
    · rw [length_append, length]
      exact inside
    · have bound := (List.getElem?_eq_some_iff.mp found).1
      rw [length_append, length, length_singleton] at bound
      rw [Row.glyph_setCell (by omega), at_i]
      rw [getElem?_append, length] at found
      split at found
      · rename_i before
        rw [if_neg (by omega)]
        rw [List.rightpad, getElem?_append] at found
        split at found
        · rw [if_neg (by omega)]
          exact h.glyphs i other found
        · obtain ⟨-, rfl⟩ := List.getElem?_eq_some_iff.mp found
          rw [getElem_replicate, if_pos (by omega)]
          exact ⟨rfl, by show space ≠ 0; decide⟩
      · rename_i last
        have here : i = col := by omega
        subst here
        rw [Nat.sub_self, getElem?_cons_zero] at found
        rw [if_pos rfl, ← Option.some.inj found]
        exact ⟨rfl, filled⟩
    · rw [length_append, length]
      exact update_self _ _ _

end

theorem shows_empty : Shows g .empty [] where
  length_le := Nat.zero_le _
  glyphs i glyph found := by simp at found
  stop _ := rfl

variable {t : Term} {s : Screen}

def scrolledRows (g : Geometry) (t : Term) : List Row :=
  (List.range t.scrollbackCount).map fun i =>
    t.scrollback ((t.scrollbackStart + i) % g.capacity)

theorem scrolledRows_eq {ring : SlotRing Row g.capacity} (slots : ring.slots = t.scrollback)
    (count : ring.count = t.scrollbackCount) (start : ring.oldest = t.scrollbackStart) :
    scrolledRows g t = ring.toList := by
  rw [scrolledRows, ← slots, ← count, ← start]
  rfl

/-- The scrollback as a ring. -/
def ringOf (g : Geometry) (t : Term) (room : 0 < g.capacity) (fits : t.scrollbackCount ≤ g.capacity) :
    SlotRing Row g.capacity where
  slots := t.scrollback
  head := (t.scrollbackStart + t.scrollbackCount) % g.capacity
  count := t.scrollbackCount
  head_lt := Nat.mod_lt _ room
  count_le := fits

theorem oldest_ringOf (room : 0 < g.capacity) (fits : t.scrollbackCount ≤ g.capacity)
    (start : t.scrollbackStart < g.capacity) : (ringOf g t room fits).oldest = t.scrollbackStart := by
  rw [oldest_eq]
  simp only [ringOf, mod_wrap (a := t.scrollbackStart + t.scrollbackCount) (c := g.capacity) (by omega)]
  split <;> split <;> omega

theorem scrolledRows_push (room : 0 < g.capacity) (fits : t.scrollbackCount ≤ g.capacity)
    (start : t.scrollbackStart < g.capacity) : scrolledRows g (scrollbackPush g t row) =
      ((ringOf g t room fits).push (row.setCell g.cols 0)).toList := by
  have first := oldest_ringOf room fits start
  rw [scrollbackPush, if_neg (ne_of_gt room)]
  apply scrolledRows_eq
  · have head : (ringOf g t room fits).head =
        if t.scrollbackCount < g.capacity then
          (t.scrollbackStart + t.scrollbackCount) % g.capacity
        else t.scrollbackStart := by
      split
      · rfl
      · rename_i full
        rw [← index_zero _ (le_antisymm fits (Nat.le_of_not_lt full)), ← first]
        exact Nat.mod_eq_of_lt (oldest_lt _)
    exact congrArg (fun slot => update t.scrollback slot (row.setCell g.cols 0)) head
  · rfl
  · rw [oldest_push, first]
    rfl

theorem rtake_concat {α : Type} (xs : List α) (x : α) {n : Nat} (room : 0 < n) : (xs ++ [x]).rtake n =
      (if (xs.rtake n).length = n then (xs.rtake n).tail else xs.rtake n) ++ [x] := by
  obtain ⟨m, rfl⟩ := Nat.exists_eq_succ_of_ne_zero (ne_of_gt room)
  rw [rtake_concat_succ, List.rtake, List.rtake, length_drop]
  congr 1
  split
  · rw [tail_drop]
    congr 1
    omega
  · congr 1
    omega

theorem Screen.cut_empty (s : Screen) (index : Nat) (empty : s.lines[index]? = some []) :
    s.cut index 0 = { s with row := index, col := 0 } := by
  have same : s.lines.modify index (List.take 0) = s.lines := by
    apply ext_getElem?
    intro i
    rw [getElem?_modify]
    by_cases here : index = i
    · subst here
      simp [empty]
    · simp [here]
  rw [Screen.cut, same]

/-- A terminal and the lists of lines it stands for. -/
structure Refines (g : Geometry) (t : Term) (s : Screen) : Prop where
  length : s.lines.length = g.rows
  lines : ∀ row line, s.lines[row]? = some line → Shows g (t.lines row) line
  row_eq : t.cursorRow = s.row
  row_lt : s.row < g.rows
  col_eq : t.cursorCol = s.col
  col_le : s.col ≤ g.cols
  pen : t.pen = s.pen
  back_eq : t.scrollbackOffset = s.back
  back_le : s.back ≤ t.scrollbackCount
  count_le : t.scrollbackCount ≤ g.capacity
  start_lt : 0 < g.capacity → t.scrollbackStart < g.capacity
  history : (scrolledRows g t).map (shown g) = s.history g

namespace Refines

section
variable (h : Refines g t s)
include h

theorem history_length : (s.history g).length = t.scrollbackCount := by
  rw [← h.history, length_map, scrolledRows, length_map, length_range]

theorem live : Refines g (returnToLive t) s.live :=
  { h with back_eq := rfl, back_le := Nat.zero_le _ }

theorem edit {index : Nat} {new : Row} {f : List Glyph → List Glyph}
    (shows : ∀ line, s.lines[index]? = some line → Shows g new (f line)) :
    Refines g { t with lines := update t.lines index new }
      { s with lines := s.lines.modify index f } :=
  { h with
    length := by rw [length_modify]; exact h.length
    lines := fun row line found => by
      rw [getElem?_modify] at found
      by_cases here : index = row
      · subst here
        obtain ⟨old, was, rfl⟩ := map_eq_some_iff.mp found
        simp only [update_self, if_true]
        exact shows old was
      · obtain ⟨old, was, rfl⟩ := map_eq_some_iff.mp found
        simp only [update_of_ne (Ne.symm here), if_neg here]
        exact h.lines row old was }

theorem move {row col : Nat} (inside : row < g.rows) (fits : col ≤ g.cols) :
    Refines g { t with cursorRow := row, cursorCol := col } { s with row := row, col := col } :=
  { h with row_eq := rfl, row_lt := inside, col_eq := rfl, col_le := fits }

theorem switch (op : Op) : Refines g { t with pen := op.penAfter t.pen } { s with pen := op.penAfter s.pen } :=
  { h with pen := congrArg (fun pen => op.penAfter pen) h.pen }

theorem line_at {row : Nat} (inside : row < g.rows) : ∃ line, s.lines[row]? = some line :=
  ⟨_, getElem?_eq_getElem (by rwa [h.length])⟩

theorem history_push (off : List Glyph) (shows : Shows g row off) :
    (scrolledRows g (scrollbackPush g t row)).map (shown g) =
      (s.scrolled ++ [off]).rtake g.capacity := by
  by_cases room : 0 < g.capacity
  · have kept : shown g (row.setCell g.cols 0) = off := (shows.setCell shows.length_le).eq
    have rows : (ringOf g t room h.count_le).toList = scrolledRows g t :=
      (scrolledRows_eq rfl rfl (oldest_ringOf room h.count_le (h.start_lt room))).symm
    have count : (ringOf g t room h.count_le).count = (s.scrolled.rtake g.capacity).length := h.history_length.symm
    have same : (scrolledRows g t).map (shown g) = s.scrolled.rtake g.capacity := h.history
    rw [scrolledRows_push room h.count_le (h.start_lt room), toList_push,
      survivors, rows, count, rtake_concat _ _ room, ← same, map_append,
      map_singleton, kept]
    split
    · rw [map_tail]
    · rfl
  · have none : g.capacity = 0 := by omega
    rw [scrollbackPush, if_pos none, h.history, Screen.history, none, rtake_zero, rtake_zero]

theorem count_push : (scrollbackPush g t row).scrollbackCount ≤ g.capacity ∧
      (0 < g.capacity → (scrollbackPush g t row).scrollbackStart < g.capacity) := by
  have count := h.count_le
  rw [scrollbackPush]
  split
  · exact ⟨h.count_le, h.start_lt⟩
  · refine ⟨by dsimp only; split <;> omega, fun room => ?_⟩
    split
    · exact h.start_lt room
    · exact Nat.mod_lt _ room

theorem scrollUp (atLive : s.back = 0) : Refines g (scrollUp g t)
      { s with
        lines := s.lines.tail ++ [[]], scrolled := s.scrolled ++ s.lines.take 1
        row := g.rows - 1, col := 0 } := by
  have rows := g.rows_ge
  obtain ⟨first, top⟩ := h.line_at (show 0 < g.rows by omega)
  have taken : s.lines.take 1 = [first] := by
    cases hlines : s.lines with
    | nil => simp [hlines] at top
    | cons x xs =>
      rw [hlines] at top
      rw [← Option.some.inj top]
      rfl
  have kept : ∀ new, (scrollbackPush g t new).pen = t.pen ∧
      (scrollbackPush g t new).scrollbackOffset = t.scrollbackOffset := by
    intro new
    rw [scrollbackPush]
    split <;> exact ⟨rfl, rfl⟩
  have length := h.length
  rw [taken]
  exact {
    length := by
      rw [length_append, length_tail, length_singleton]
      omega
    lines := by
      intro row line found
      rw [getElem?_append, length_tail] at found
      have bound : row + 1 ≤ g.rows := by
        by_contra beyond
        rw [if_neg (by omega), getElem?_eq_none (by simp; omega)] at found
        contradiction
      unfold Terminal.scrollUp
      split at found
      · rename_i inner
        rw [getElem?_tail] at found
        simp only [if_pos (show row + 1 < g.rows by omega)]
        exact h.lines (row + 1) line found
      · simp only [if_neg (show ¬ row + 1 < g.rows by omega),
          if_pos (show row + 1 = g.rows by omega)]
        rw [show row - (s.lines.length - 1) = 0 by omega] at found
        rw [← Option.some.inj found]
        exact shows_empty
    row_eq := rfl
    row_lt := by show g.rows - 1 < g.rows; omega
    col_eq := rfl
    col_le := Nat.zero_le _
    pen := (kept _).1.trans h.pen
    back_eq := (kept _).2.trans h.back_eq
    back_le := by show s.back ≤ _; rw [atLive]; exact Nat.zero_le _
    count_le := h.count_push.1
    start_lt := h.count_push.2
    history := h.history_push first (h.lines 0 first top) }

theorem newline : Refines g (newline g t) (s.newline g) := by
  have row := h.row_eq
  have inside := h.row_lt
  unfold Terminal.newline Screen.newline
  dsimp only [returnToLive]
  by_cases room : s.row + 1 < g.rows
  · rw [if_neg (show ¬ g.rows ≤ t.cursorRow + 1 by omega), if_pos room, row]
    exact h.live.move room (Nat.zero_le _)
  · rw [if_pos (show g.rows ≤ t.cursorRow + 1 by omega), if_neg room, row]
    exact (h.live.move inside (Nat.zero_le _)).scrollUp rfl

theorem erase : Refines g (erase t) (s.cut s.row (s.col - 1)) := by
  have fits := h.col_le
  have cols := g.cols_ge
  have moved := h.move h.row_lt (show s.col - 1 ≤ g.cols by omega)
  have cleared := moved.edit fun line found =>
    (h.lines s.row line found).take (show s.col - 1 < g.cols by omega)
  unfold Terminal.erase
  rw [h.row_eq, h.col_eq]
  exact cleared

theorem backspace : Refines g (backspace g t) s.backspace := by
  have live := h.live
  unfold Terminal.backspace Screen.backspace
  generalize returnToLive t = t' at live ⊢
  have row : t'.cursorRow = s.row := live.row_eq
  have col : t'.cursorCol = s.col := live.col_eq
  have inside := h.row_lt
  dsimp only
  by_cases within : 0 < s.col
  · rw [if_pos (by rwa [col]), if_pos within]
    exact live.erase
  rw [if_neg (by rwa [col]), if_neg within]
  by_cases top : s.row = 0
  · rw [if_pos (by rwa [row]), if_pos top]
    exact live
  rw [if_neg (by rwa [row]), if_neg top]
  obtain ⟨line, above⟩ := h.line_at (show s.row - 1 < g.rows by omega)
  have shows : Shows g (t'.lines (s.row - 1)) line := live.lines _ line above
  have length : (s.lines.getD (s.row - 1) []).length = lineLen g (t'.lines (t'.cursorRow - 1)) := by
    rw [getD_eq_getElem?_getD, above, getD_some, row, shows.lineLen]
  have moved := live.move (show t'.cursorRow - 1 < g.rows by omega)
    (show lineLen g (t'.lines (t'.cursorRow - 1)) ≤ g.cols from lineLen_le)
  rw [length, ← row]
  split
  · exact moved.erase
  · rename_i none
    have zero : lineLen g (t'.lines (t'.cursorRow - 1)) = 0 := Nat.eq_zero_of_not_pos none
    have nothing : line = [] := by
      rw [row, shows.lineLen] at zero
      exact length_eq_zero_iff.mp zero
    have kept := Screen.cut_empty s.live (t'.cursorRow - 1) (by
      rw [row]
      exact above.trans (congrArg some nothing))
    rw [zero] at moved ⊢
    exact kept ▸ moved

theorem type {cell : UInt16} (inside : s.col < g.cols) (filled : cell ≠ 0) : Refines g
      { t with
        lines := update t.lines t.cursorRow
          (putRow g (t.lines t.cursorRow) t.cursorCol (cell, t.pen))
        cursorCol := t.cursorCol + 1 }
      { s with lines := s.lines.modify s.row (Screen.place s.col (cell, s.pen)), col := s.col + 1 } := by
  have moved := h.move h.row_lt inside
  have typed := moved.edit (f := Screen.place s.col (cell, s.pen)) fun line found =>
    (h.lines s.row line found).place inside filled
  rw [h.row_eq, h.col_eq, h.pen]
  exact { typed with pen := rfl }

theorem put (codepoint : UInt32) : Refines g (putCodepoint g t codepoint) (s.put g (cellForCodepoint codepoint)) := by
  have col : (returnToLive t).cursorCol = s.col := h.live.col_eq
  have cols := g.cols_ge
  by_cases none : cellForCodepoint codepoint = 0
  · simp only [putCodepoint, Screen.put, none, if_true]
    exact h
  · simp only [putCodepoint, Screen.put, none, if_false]
    by_cases room : s.col < g.cols
    · rw [if_pos room, if_neg (show ¬ g.cols ≤ (returnToLive t).cursorCol by omega)]
      exact h.live.type room none
    · rw [if_neg room, if_pos (show g.cols ≤ (returnToLive t).cursorCol by omega)]
      refine h.live.newline.type ?_ none
      unfold Screen.newline
      split <;> exact lt_of_lt_of_le (Nat.succ_pos 3) cols

theorem clear {row col : Nat} (covered : row < g.rows → s.pen ≠ .plain → col ≤ lineLen g (t.lines row)) :
    Refines g (clearLineFrom g t row col) (s.clearLineFrom g row col) := by
  unfold clearLineFrom Screen.clearLineFrom
  by_cases inside : row < g.rows ∧ col ≤ g.cols
  · rw [if_neg (by omega), if_pos inside]
    dsimp only [returnToLive]
    have plain : (t.pen.bold || t.pen.italic || t.pen.underline || t.pen.inverse) = true ↔
        s.pen ≠ .plain := by
      rw [h.pen]
      rcases s.pen with ⟨_ | _, _ | _, _ | _, _ | _⟩ <;> decide
    apply h.live.edit
    intro line found
    have shows := h.lines row line found
    by_cases none : s.pen = .plain
    · rw [if_neg (by rw [plain]; exact fun some => some none), if_pos none]
      exact shows.wipe
    · rw [if_pos (plain.mpr none), if_neg none, h.pen]
      exact shows.stretch (shows.lineLen ▸ covered inside.1 none)
  · rw [if_pos (by omega), if_neg inside]
    exact h

theorem pageUp : Refines g (pageUp g t) { s with back := min (s.back + g.rows) (s.history g).length } := by
  have back := h.back_eq
  have fits := h.back_le
  rw [h.history_length]
  unfold Terminal.pageUp
  split
  case' isFalse => split
  all_goals exact { h with
    back_eq := by dsimp only; omega
    back_le := by dsimp only; omega }

theorem pageDown : Refines g (pageDown g t) { s with back := s.back - g.rows } := by
  have back := h.back_eq
  have fits := h.back_le
  unfold Terminal.pageDown
  split
  case' isFalse => split
  all_goals exact { h with
    back_eq := by dsimp only; omega
    back_le := by dsimp only; omega }

end

end Refines

theorem Screen.col_put : (s.put g space).col = if s.col < g.cols then s.col + 1 else 1 := by
  rw [Screen.put, if_neg (by decide)]
  split
  · rfl
  · unfold Screen.newline
    split <;> rfl

theorem Screen.tabSpaces_put (fits : s.col ≤ g.cols) : Screen.tabSpaces g s.col =
      if (s.put g space).col % 4 = 0 then 1 else Screen.tabSpaces g (s.put g space).col + 1 := by
  have cols := g.cols_ge
  rw [Screen.col_put]
  unfold Screen.tabSpaces
  by_cases room : s.col < g.cols
  · simp only [room, true_and, if_true]
    split <;> split <;> first | omega | (split <;> omega)
  · rw [if_neg (by omega), if_neg room, if_neg (by decide), if_pos (by omega)]
    omega

theorem Screen.tabSpaces_bound (fits : col ≤ g.cols) : 0 < Screen.tabSpaces g col ∧ Screen.tabSpaces g col ≤ 7 := by
  unfold Screen.tabSpaces
  split <;> omega

theorem Refines.tab {n fuel : Nat} (h : Refines g t s) (spaces : Screen.tabSpaces g s.col = n + 1) (enough : n < fuel) :
    ∃ t', putTab g fuel t = some t' ∧ Refines g t' ((Screen.put g space)^[n + 1] s) := by
  induction n generalizing t s fuel with
  | zero =>
    obtain ⟨fuel, rfl⟩ := Nat.exists_eq_succ_of_ne_zero (Nat.ne_zero_of_lt enough)
    have next := Screen.tabSpaces_put h.col_le
    have put : Refines g (putCodepoint g t 0x20) (s.put g space) := h.put 0x20
    have stop : (s.put g space).col % 4 = 0 := by
      by_contra short
      have more := (Screen.tabSpaces_bound put.col_le).1
      rw [if_neg short] at next
      omega
    exact ⟨_, if_pos (by rwa [put.col_eq]), put⟩
  | succ n ih =>
    obtain ⟨fuel, rfl⟩ := Nat.exists_eq_succ_of_ne_zero (Nat.ne_zero_of_lt enough)
    have next := Screen.tabSpaces_put h.col_le
    have put : Refines g (putCodepoint g t 0x20) (s.put g space) := h.put 0x20
    have short : (s.put g space).col % 4 ≠ 0 := by
      intro stop
      rw [if_pos stop] at next
      omega
    rw [if_neg short] at next
    obtain ⟨t', ran, refines⟩ := ih put (by omega) (Nat.lt_of_succ_lt_succ enough)
    refine ⟨t', ?_, by rwa [iterate_succ_apply]⟩
    rw [putTab]
    exact (if_neg (by rwa [put.col_eq])).trans ran

/-- A call to `clear_line_from` that changes a row with an attribute set starts inside the row's
line or at its end. -/
def Covered (g : Geometry) (t : Term) : Op → Prop
  | .clearLineFrom row col =>
    row < g.rows → col ≤ g.cols → t.pen ≠ .plain → col ≤ lineLen g (t.lines row)
  | _ => True

theorem Refines.putChar (h : Refines g t s) {fuel : Nat} (enough : 7 ≤ fuel) (ch : UInt8) :
    ∃ t', putChar g fuel t ch = some t' ∧ Refines g t' (s.putChar g ch) := by
  unfold Terminal.putChar Screen.putChar
  split
  · exact ⟨_, rfl, { h.live with col_eq := rfl, col_le := Nat.zero_le _ }⟩
  split
  · exact ⟨_, rfl, h.newline⟩
  split
  · exact ⟨_, rfl, h.backspace⟩
  split
  · have bound := Screen.tabSpaces_bound h.col_le
    obtain ⟨n, spaces⟩ := Nat.exists_eq_succ_of_ne_zero (ne_of_gt bound.1)
    rw [spaces]
    exact h.tab spaces (by omega)
  split
  · exact ⟨_, rfl, h.put _⟩
  · exact ⟨_, rfl, h⟩

theorem Refines.step (h : Refines g t s) {fuel : Nat} (enough : 7 ≤ fuel) {op : Op}
    (covered : Covered g t op) : ∃ t', step g fuel t op = some t' ∧ Refines g t' (s.step g op) := by
  have rows := g.rows_ge
  cases op with
  | putCodepoint codepoint => exact ⟨_, rfl, h.put codepoint⟩
  | putChar ch => exact h.putChar enough ch
  | backspace => exact ⟨_, rfl, h.backspace⟩
  | newline => exact ⟨_, rfl, h.newline⟩
  | setCursor row col =>
    refine ⟨_, rfl, ?_⟩
    have row_eq : (if g.rows ≤ row then g.rows - 1 else row) = min row (g.rows - 1) := by
      split <;> omega
    have col_eq : (if g.cols < col then g.cols else col) = min col g.cols := by
      split <;> omega
    unfold setCursor
    rw [row_eq, col_eq]
    exact h.live.move (by omega) (Nat.min_le_right _ _)
  | clearLineFrom row col =>
    refine ⟨_, rfl, ?_⟩
    by_cases fits : col ≤ g.cols
    · exact h.clear fun inside pen => covered inside fits (by rwa [h.pen])
    · have same : clearLineFrom g t row col = t := if_pos (.inr (Nat.lt_of_not_le fits))
      have same' : s.clearLineFrom g row col = s := if_neg fun both => fits both.2
      rw [same, Screen.step, same']
      exact h
  | setBold enabled | setItalic enabled | setUnderline enabled | setInverse enabled =>
    exact ⟨_, rfl, h.switch _⟩
  | pageUp => exact ⟨_, rfl, h.pageUp⟩
  | pageDown => exact ⟨_, rfl, h.pageDown⟩

theorem refines_cleared (g : Geometry) : Refines g .cleared (.cleared g) where
  length := length_replicate
  lines row line found := by
    rw [eq_of_mem_replicate (mem_of_getElem? found)]
    exact shows_empty
  row_eq := rfl
  row_lt := lt_of_lt_of_le (Nat.succ_pos 1) g.rows_ge
  col_eq := rfl
  col_le := Nat.zero_le _
  pen := rfl
  back_eq := rfl
  back_le := le_rfl
  count_le := Nat.zero_le _
  start_lt := id
  history := (rtake_nil _).symm

def Admits (g : Geometry) (fuel : Nat) : Term → List Op → Prop
  | _, [] => True
  | t, op :: ops => Covered g t op ∧ ∀ t', step g fuel t op = some t' → Admits g fuel t' ops

theorem Refines.run (h : Refines g t s) {fuel : Nat} (enough : 7 ≤ fuel) {ops : List Op}
    (covered : Admits g fuel t ops) :
    ∃ t', run g fuel t ops = some t' ∧ Refines g t' (ops.foldl (Screen.step g) s) := by
  induction ops generalizing t s with
  | nil => exact ⟨t, rfl, h⟩
  | cons op ops ih =>
    obtain ⟨t', stepped, refines⟩ := h.step enough covered.1
    obtain ⟨t'', ran, refines⟩ := ih refines (covered.2 t' stepped)
    refine ⟨t'', ?_, refines⟩
    rw [Terminal.run, foldlM_cons, stepped]
    exact ran

theorem Refines.display (h : Refines g t s) (inside : i < g.rows) : shown g (displayLine g t i) = s.display g i := by
  have back := h.back_le
  unfold displayLine Screen.display
  dsimp only
  rw [h.back_eq, if_pos back, h.history_length]
  rw [getD_eq_getElem?_getD, getElem?_append, h.history_length]
  split
  · rename_i older
    have count := h.count_le
    rw [scrollbackLine, if_neg (by omega), ← h.history, scrolledRows, getElem?_map,
      getElem?_map, getElem?_range older]
    rfl
  · obtain ⟨line, found⟩ := h.line_at (show t.scrollbackCount - s.back + i - t.scrollbackCount < g.rows by omega)
    rw [if_pos (by omega), found, getD_some]
    exact (h.lines _ line found).eq

/-- The cursor is inside the grid and where the lists of lines have it, no line is longer than a
row, and every row of the view shows its line. -/
structure Agrees (g : Geometry) (t : Term) (s : Screen) : Prop where
  row : t.cursorRow = s.row ∧ t.cursorRow < g.rows
  col : t.cursorCol = s.col ∧ t.cursorCol ≤ g.cols
  lines : s.lines.length = g.rows ∧ ∀ line ∈ s.lines, line.length ≤ g.cols
  display : ∀ row < g.rows, shown g (displayLine g t row) = s.display g row

/-- Every run whose calls are covered shows what the lists of lines say. -/
theorem grid_refines (g : Geometry) (fuel : Nat) (enough : 7 ≤ fuel) (ops : List Op)
    (covered : Admits g fuel .cleared ops) : ∃ t, run g fuel .cleared ops = some t ∧
      Agrees g t (ops.foldl (Screen.step g) (.cleared g)) := by
  obtain ⟨t, ran, h⟩ := (refines_cleared g).run enough covered
  refine ⟨t, ran, ?_⟩
  exact {
    row := ⟨h.row_eq, h.row_eq ▸ h.row_lt⟩
    col := ⟨h.col_eq, h.col_eq ▸ h.col_le⟩
    lines := by
      refine ⟨h.length, fun line member => ?_⟩
      obtain ⟨i, found⟩ := mem_iff_getElem?.mp member
      exact (h.lines i line found).length_le
    display := fun row inside => h.display inside }

def narrow : Geometry := ⟨4, 2, 1, by decide, by decide, by decide, by decide⟩

theorem grid_refines_bar : ∃ t, run narrow 7 .cleared [.setInverse true, .clearLineFrom 0 0] = some t ∧
      Agrees narrow t
        ([.setInverse true, .clearLineFrom 0 0].foldl (Screen.step narrow) (.cleared narrow)) :=
  grid_refines narrow 7 (by decide) _
    ⟨trivial, fun _ _ => ⟨fun _ _ _ => Nat.zero_le _, fun _ _ => trivial⟩⟩

/-- Inverse spaces from the second column of an empty row on are not shown at all. -/
theorem bar_hidden : ¬ ∀ ops : List Op, ∃ fuel t, run narrow fuel .cleared ops = some t ∧
      Agrees narrow t (ops.foldl (Screen.step narrow) (.cleared narrow)) := by
  intro all
  obtain ⟨fuel, t, ran, agrees⟩ := all [.setInverse true, .clearLineFrom 0 1]
  have drawn := agrees.display 0 (by decide)
  rw [← Option.some.inj ran] at drawn
  exact absurd drawn (by decide)

end SolarOs.Terminal
