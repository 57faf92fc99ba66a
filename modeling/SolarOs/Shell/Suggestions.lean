import Mathlib.Data.List.Induction
import Mathlib.Data.List.GetD
import SolarOs.Library.Alignment
import SolarOs.Library.CString

/-! The nearest command name: three rows of a table of distances, given up as soon as a row is
above the limit. -/
namespace SolarOs.Shell
open List
open Edits (distance)
open Ctype (toLower)

def byte (n : Nat) : Nat := n % 256

section
variable (left right : List UInt8)

def sameLetter (i j : Nat) : Bool := toLower (left.getD i 0) = toLower (right.getD j 0)

/-- The value of a cell, from the two rows above and what there is of its own. -/
def cellValue (i j : Nat) (previous beforePrevious current : List Nat) : Nat :=
  let substitution := byte (previous.getD (j - 1) 0 + if sameLetter left right (i - 1) (j - 1) then 0 else 1)
  let insertion := byte (current.getD (j - 1) 0 + 1)
  let deletion := byte (previous.getD j 0 + 1)
  let value := if substitution < insertion then substitution else insertion
  let value := if deletion < value then deletion else value
  if 1 < i ∧ 1 < j ∧ sameLetter left right (i - 1) (j - 2) ∧ sameLetter left right (i - 2) (j - 1) then
    let transposition := byte (beforePrevious.getD (j - 2) 0 + 1)
    if transposition < value then transposition else value
  else value

/-- One turn of the inner loop of `solar_os_shell_edit_distance`: the row so far and its least value. -/
def cell (i : Nat) (previous beforePrevious : List Nat) (state : List Nat × Nat) (j : Nat) :
    List Nat × Nat :=
  let value := cellValue left right i j previous beforePrevious state.1
  (state.1 ++ [value], if value < state.2 then value else state.2)

def row (i : Nat) (previous beforePrevious : List Nat) : List Nat × Nat :=
  (List.range' 1 right.length).foldl (cell left right i previous beforePrevious) ([byte i], byte i)

/-- The outer loop from row `i` on; nothing when a row is above the limit. -/
def rows (left right : List UInt8) (limit : Nat) : Nat → Nat → List Nat → List Nat → Option (List Nat)
  | 0, _, previous, _ => some previous
  | count + 1, i, previous, beforePrevious =>
    let (current, rowMin) := row left right i previous beforePrevious
    if byte limit < rowMin then none else rows left right limit count (i + 1) current previous

structure Suggestion where
  best : Option CString
  bestDistance : Nat
  ambiguous : Bool

def folded (s : List UInt8) : List UInt8 := s.map toLower

noncomputable def prefixDistance (i j : Nat) : Nat :=
  distance ((folded left).take i) ((folded right).take j)

end

variable {left right : List UInt8} {i j limit : Nat}

def cost (left right : List UInt8) (i j : Nat) : Nat := if sameLetter left right i j then 0 else 1

def Row (left right : List UInt8) (i : Nat) (row : List Nat) : Prop :=
  ∀ j ≤ right.length, row.getD j 0 = prefixDistance left right i j

noncomputable def nearness (left right : CString) : Nat := distance (folded left.bytes) (folded right.bytes)

def Nearest (input : CString) (limit : Nat) (names : List CString) (best : CString) : Prop :=
  best ∈ names ∧ nearness input best ≤ limit ∧ ∀ c ∈ names, c ≠ best → nearness input best < nearness input c

structure Seen (input : CString) (limit : Nat) (names : List CString) (s : Suggestion) : Prop where
  unnamed : s.best = none → s.bestDistance = limit + 1 ∧ s.ambiguous = false ∧ ∀ c ∈ names, limit < nearness input c
  named : ∀ b, s.best = some b → b ∈ names ∧ nearness input b = s.bestDistance ∧ s.bestDistance ≤ limit ∧
    (∀ c ∈ names, s.bestDistance ≤ nearness input c) ∧
      (s.ambiguous = true ↔ ∃ c ∈ names, c ≠ b ∧ nearness input c = s.bestDistance)

theorem Seen.first {input c : CString} {names : List CString} (near : nearness input c ≤ limit)
    (far : ∀ x ∈ names, nearness input c < nearness input x) :
    Seen input limit (names ++ [c]) ⟨some c, nearness input c, false⟩ := by
  refine ⟨nofun, fun b is => ?_⟩
  cases is
  refine ⟨mem_append_right _ (mem_singleton_self c), rfl, near, fun x there => ?_, ?_⟩
  · rcases mem_append.mp there with there | there
    · exact le_of_lt (far x there)
    · rw [mem_singleton.mp there]
  · refine ⟨fun no => Bool.noConfusion no, fun ⟨x, there, other, same⟩ => ?_⟩
    rcases mem_append.mp there with there | there
    · exact absurd same (ne_of_gt (far x there))
    · exact absurd (mem_singleton.mp there) other

def names (candidates : List (Option CString)) : List CString :=
  candidates.filterMap fun candidate => candidate.filter fun c => c.bytes ≠ []

end SolarOs.Shell
