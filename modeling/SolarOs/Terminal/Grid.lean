import Mathlib.Data.List.DropRight
import Mathlib.Logic.Function.Iterate

/-! The text grid of the terminal: rows of cells that end at their first empty cell, the ring of
rows that were scrolled off, and the lists of lines both stand for. -/
namespace SolarOs.Terminal
open Function

def maxCols : Nat := 96
def maxRows : Nat := 64
def space : UInt16 := 0x20

/-- The columns and rows that `terminal_apply_settings` found, with the slots of the scrollback:
none where there was no memory for them. -/
structure Geometry where
  cols : Nat
  rows : Nat
  capacity : Nat
  cols_ge : 4 ≤ cols
  cols_le : cols ≤ maxCols
  rows_ge : 2 ≤ rows
  rows_le : rows ≤ maxRows

/-- The attribute words of a row, a bit for each column. -/
abbrev Words := Nat → BitVec 32

def attrGet (words : Words) (col : Nat) : Bool :=
  if maxCols ≤ col then false else (words (col / 32)).getLsbD (col % 32)

def attrSet (words : Words) (col : Nat) (enabled : Bool) : Words :=
  if maxCols ≤ col then words
  else
    let mask := BitVec.twoPow 32 (col % 32)
    update words (col / 32)
      (if enabled then words (col / 32) ||| mask else words (col / 32) &&& ~~~mask)

def attrClearFrom (words : Words) (col : Nat) : Words :=
  (List.range' col (maxCols - col)).foldl (fun words i => attrSet words i false) words

structure Attrs where
  bold : Bool
  italic : Bool
  underline : Bool
  inverse : Bool
  deriving DecidableEq

def Attrs.plain : Attrs := ⟨false, false, false, false⟩

/-- What stands in a column: the character with its attributes. -/
abbrev Glyph := UInt16 × Attrs

def blank : Glyph := (space, .plain)

/-- A row of `lines`, `bold`, `italic`, `underline` and `inverse`. -/
structure Row where
  cells : Nat → UInt16
  bold : Words
  italic : Words
  underline : Words
  inverse : Words

def Row.empty : Row := ⟨fun _ => 0, fun _ => 0, fun _ => 0, fun _ => 0, fun _ => 0⟩

def Row.glyph (row : Row) (col : Nat) : Glyph :=
  (row.cells col, ⟨attrGet row.bold col, attrGet row.italic col, attrGet row.underline col,
    attrGet row.inverse col⟩)

def Row.setCell (row : Row) (col : Nat) (cell : UInt16) : Row :=
  { row with cells := update row.cells col cell }

def Row.write (row : Row) (col : Nat) (glyph : Glyph) : Row where
  cells := update row.cells col glyph.1
  bold := attrSet row.bold col glyph.2.bold
  italic := attrSet row.italic col glyph.2.italic
  underline := attrSet row.underline col glyph.2.underline
  inverse := attrSet row.inverse col glyph.2.inverse

/-- The loops that write one glyph from column `start` up to `stop`. -/
def Row.fill (row : Row) (start stop : Nat) (glyph : Glyph) : Row :=
  (List.range' start (stop - start)).foldl (fun row col => row.write col glyph) row

/-- The branch of `solar_os_terminal_clear_line_from` without an attribute. -/
def Row.wipe (row : Row) (col : Nat) : Row where
  cells i := if col ≤ i ∧ i ≤ maxCols then 0 else row.cells i
  bold := attrClearFrom row.bold col
  italic := attrClearFrom row.italic col
  underline := attrClearFrom row.underline col
  inverse := attrClearFrom row.inverse col

def isCombiningCodepoint (codepoint : UInt32) : Bool :=
  (0x0300 ≤ codepoint && codepoint ≤ 0x036f) || (0x1ab0 ≤ codepoint && codepoint ≤ 0x1aff) ||
    (0x1dc0 ≤ codepoint && codepoint ≤ 0x1dff) || (0x20d0 ≤ codepoint && codepoint ≤ 0x20ff) ||
    (0xfe20 ≤ codepoint && codepoint ≤ 0xfe2f)

def isPrintableCodepoint (codepoint : UInt32) : Bool :=
  (0x20 ≤ codepoint && codepoint ≤ 0x7e) || (0xa0 ≤ codepoint && codepoint ≤ 0xd7ff) ||
    (0xe000 ≤ codepoint && codepoint ≤ 0xffff)

def cellForCodepoint (codepoint : UInt32) : UInt16 :=
  if isCombiningCodepoint codepoint then 0
  else if 0xffff < codepoint then 0x3f
  else if !isPrintableCodepoint codepoint then 0
  else codepoint.toUInt16

def isPrintable (ch : UInt8) : Bool := (0x20 ≤ ch && ch ≤ 0x7e) || 0xa0 ≤ ch

/-- The calls on a terminal. -/
inductive Op where
  | putCodepoint (codepoint : UInt32)
  | putChar (ch : UInt8)
  | backspace
  | newline
  | setCursor (row col : Nat)
  | clearLineFrom (row col : Nat)
  | setBold (enabled : Bool)
  | setItalic (enabled : Bool)
  | setUnderline (enabled : Bool)
  | setInverse (enabled : Bool)
  | pageUp
  | pageDown

def Op.penAfter (pen : Attrs) : Op → Attrs
  | .setBold enabled => { pen with bold := enabled }
  | .setItalic enabled => { pen with italic := enabled }
  | .setUnderline enabled => { pen with underline := enabled }
  | .setInverse enabled => { pen with inverse := enabled }
  | _ => pen

/-- `solar_os_terminal_t`; the pen holds `bold_enabled` and the other switches. -/
structure Term where
  lines : Nat → Row
  cursorRow : Nat
  cursorCol : Nat
  pen : Attrs
  scrollback : Nat → Row
  scrollbackStart : Nat
  scrollbackCount : Nat
  scrollbackOffset : Nat

/-- A terminal after `solar_os_terminal_clear`. -/
def Term.cleared : Term where
  lines _ := .empty
  cursorRow := 0
  cursorCol := 0
  pen := .plain
  scrollback _ := .empty
  scrollbackStart := 0
  scrollbackCount := 0
  scrollbackOffset := 0

section
variable (g : Geometry)

def lineLen (row : Row) : Nat := (List.range g.cols).findIdx fun len => row.cells len = 0

section
variable (t : Term)

def scrollbackPush (row : Row) : Term :=
  if g.capacity = 0 then t
  else
    let slot :=
      if t.scrollbackCount < g.capacity then
        (t.scrollbackStart + t.scrollbackCount) % g.capacity
      else t.scrollbackStart
    { t with
      scrollback := update t.scrollback slot (row.setCell g.cols 0)
      scrollbackCount :=
        if t.scrollbackCount < g.capacity then t.scrollbackCount + 1 else t.scrollbackCount
      scrollbackStart :=
        if t.scrollbackCount < g.capacity then t.scrollbackStart
        else (t.scrollbackStart + 1) % g.capacity }

def scrollUp : Term :=
  { scrollbackPush g t (t.lines 0) with
    lines := fun row =>
      if row + 1 < g.rows then t.lines (row + 1)
      else if row + 1 = g.rows then .empty
      else t.lines row
    cursorRow := g.rows - 1
    cursorCol := 0 }

def returnToLive : Term := { t with scrollbackOffset := 0 }

def newline : Term :=
  let t := { returnToLive t with cursorCol := 0 }
  if g.rows ≤ t.cursorRow + 1 then scrollUp g t else { t with cursorRow := t.cursorRow + 1 }

def erase : Term :=
  { t with
    cursorCol := t.cursorCol - 1
    lines := update t.lines t.cursorRow
      ((t.lines t.cursorRow).write (t.cursorCol - 1) (0, .plain)) }

def backspace : Term :=
  let t := returnToLive t
  if 0 < t.cursorCol then erase t
  else if t.cursorRow = 0 then t
  else
    let t := { t with
      cursorRow := t.cursorRow - 1
      cursorCol := lineLen g (t.lines (t.cursorRow - 1)) }
    if 0 < t.cursorCol then erase t else t

/-- What `solar_os_terminal_put_codepoint` does to the row of the cursor. -/
def putRow (row : Row) (col : Nat) (glyph : Glyph) : Row :=
  let len := lineLen g row
  let row := (row.fill len col blank).write col glyph
  if len < col + 1 then row.setCell (col + 1) 0 else row

def putCodepoint (codepoint : UInt32) : Term :=
  let cell := cellForCodepoint codepoint
  if cell = 0 then t
  else
    let t := returnToLive t
    let t := if g.cols ≤ t.cursorCol then newline g t else t
    { t with
      lines := update t.lines t.cursorRow
        (putRow g (t.lines t.cursorRow) t.cursorCol (cell, t.pen))
      cursorCol := t.cursorCol + 1 }

end

def putTab : Nat → Term → Option Term
  | 0, _ => none
  | fuel + 1, t =>
    let t := putCodepoint g t 0x20
    if t.cursorCol % 4 = 0 then some t else putTab fuel t

def putChar (fuel : Nat) (t : Term) (ch : UInt8) : Option Term :=
  if ch = 0x0d then some { returnToLive t with cursorCol := 0 }
  else if ch = 0x0a then some (newline g t)
  else if ch = 0x08 then some (backspace g t)
  else if ch = 0x09 then putTab g fuel t
  else if isPrintable ch then some (putCodepoint g t ch.toUInt32)
  else some t

variable (t : Term)

def setCursor (row col : Nat) : Term :=
  { returnToLive t with
    cursorRow := if g.rows ≤ row then g.rows - 1 else row
    cursorCol := if g.cols < col then g.cols else col }

def clearLineFrom (row col : Nat) : Term :=
  if g.rows ≤ row ∨ g.cols < col then t
  else
    let t := returnToLive t
    let cleared :=
      if t.pen.bold || t.pen.italic || t.pen.underline || t.pen.inverse then
        ((t.lines row).fill col g.cols (space, t.pen)).setCell g.cols 0
      else (t.lines row).wipe col
    { t with lines := update t.lines row cleared }

def pageUp : Term :=
  if t.scrollbackCount = 0 then t
  else if t.scrollbackCount - t.scrollbackOffset ≤ g.rows then
    { t with scrollbackOffset := t.scrollbackCount }
  else { t with scrollbackOffset := t.scrollbackOffset + g.rows }

def pageDown : Term :=
  if t.scrollbackOffset = 0 then t
  else if t.scrollbackOffset ≤ g.rows then { t with scrollbackOffset := 0 }
  else { t with scrollbackOffset := t.scrollbackOffset - g.rows }

def step (fuel : Nat) (t : Term) (op : Op) : Option Term :=
  match op with
  | .putCodepoint codepoint => some (putCodepoint g t codepoint)
  | .putChar ch => putChar g fuel t ch
  | .backspace => some (backspace g t)
  | .newline => some (newline g t)
  | .setCursor row col => some (setCursor g t row col)
  | .clearLineFrom row col => some (clearLineFrom g t row col)
  | .pageUp => some (pageUp g t)
  | .pageDown => some (pageDown g t)
  | _ => some { t with pen := op.penAfter t.pen }

def run (fuel : Nat) (t : Term) (ops : List Op) : Option Term := ops.foldlM (step g fuel) t

/-- `scrollback_line` with the attribute rows of the same index. -/
def scrollbackLine (index : Nat) : Option Row :=
  if g.capacity = 0 ∨ t.scrollbackCount ≤ index then none
  else some (t.scrollback ((t.scrollbackStart + index) % g.capacity))

def displayLine (row : Nat) : Row :=
  let historyCount := t.scrollbackCount
  let offset := if t.scrollbackOffset ≤ historyCount then t.scrollbackOffset else historyCount
  let virtualIndex := historyCount - offset + row
  if virtualIndex < historyCount then (scrollbackLine g t virtualIndex).getD .empty
  else if virtualIndex - historyCount < g.rows then t.lines (virtualIndex - historyCount)
  else .empty

def shown (row : Row) : List Glyph := (List.range (lineLen g row)).map row.glyph

end

/-- The grid as lists of lines: the live lines, every line that ever scrolled off, the cursor, the
pen, and how many lines back the view is. -/
structure Screen where
  lines : List (List Glyph)
  scrolled : List (List Glyph)
  row : Nat
  col : Nat
  pen : Attrs
  back : Nat

namespace Screen
variable (g : Geometry)

def cleared : Screen := ⟨List.replicate g.rows [], [], 0, 0, .plain, 0⟩

variable (s : Screen)

def history : List (List Glyph) := s.scrolled.rtake g.capacity

def live : Screen := { s with back := 0 }

def place (col : Nat) (glyph : Glyph) (line : List Glyph) : List Glyph :=
  if col < line.length then line.set col glyph else line.rightpad col blank ++ [glyph]

/-- The line of exactly `cols` glyphs that are attributed spaces from `col` on. -/
def stretch (col : Nat) (pen : Attrs) (line : List Glyph) : List Glyph :=
  (line.rightpad col blank).take col ++ List.replicate (g.cols - col) (space, pen)

def newline : Screen :=
  if s.row + 1 < g.rows then { s.live with row := s.row + 1, col := 0 }
  else
    { s.live with
      lines := s.lines.tail ++ [[]]
      scrolled := s.scrolled ++ s.lines.take 1
      row := g.rows - 1
      col := 0 }

def cut (row col : Nat) : Screen :=
  { s with lines := s.lines.modify row (List.take col), row := row, col := col }

def backspace : Screen :=
  if 0 < s.col then s.live.cut s.row (s.col - 1)
  else if s.row = 0 then s.live
  else s.live.cut (s.row - 1) ((s.lines.getD (s.row - 1) []).length - 1)

def put (cell : UInt16) (s : Screen) : Screen :=
  if cell = 0 then s
  else
    let s := if s.col < g.cols then s.live else s.newline g
    { s with lines := s.lines.modify s.row (place s.col (cell, s.pen)), col := s.col + 1 }

def tabSpaces (col : Nat) : Nat :=
  if col < g.cols ∧ (col / 4 + 1) * 4 ≤ g.cols then 4 - col % 4 else g.cols - col + 4

def putChar (ch : UInt8) : Screen :=
  if ch = 0x0d then { s.live with col := 0 }
  else if ch = 0x0a then s.newline g
  else if ch = 0x08 then s.backspace
  else if ch = 0x09 then (put g space)^[tabSpaces g s.col] s
  else if isPrintable ch then s.put g (cellForCodepoint ch.toUInt32)
  else s

def clearLineFrom (row col : Nat) : Screen :=
  if row < g.rows ∧ col ≤ g.cols then
    { s.live with
      lines := s.lines.modify row
        (if s.pen = .plain then List.take col else stretch g col s.pen) }
  else s

def step (op : Op) : Screen :=
  match op with
  | .putCodepoint codepoint => s.put g (cellForCodepoint codepoint)
  | .putChar ch => s.putChar g ch
  | .backspace => s.backspace
  | .newline => s.newline g
  | .setCursor row col => { s.live with row := min row (g.rows - 1), col := min col g.cols }
  | .clearLineFrom row col => s.clearLineFrom g row col
  | .pageUp => { s with back := min (s.back + g.rows) (s.history g).length }
  | .pageDown => { s with back := s.back - g.rows }
  | _ => { s with pen := op.penAfter s.pen }

def display (row : Nat) : List Glyph :=
  (s.history g ++ s.lines).getD ((s.history g).length - s.back + row) []

end Screen

end SolarOs.Terminal
