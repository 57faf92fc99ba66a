import SolarOs.Schedule.PowerLoss
import Mathlib.Order.Bounds.Defs

/-! How long the device may sleep: the wake time that the schedule asks for, when its entries
are due, and which of them the wake time leaves out. -/
namespace SolarOs.Schedule
open Program Storage

section
variable (clock : Clock)

variable (e : Entry)

variable (delay : Nat)

/-- What the clocks say `delay` milliseconds later, when nobody sets them. -/
def Clock.later : Clock :=
  { clock with
    uptimeMs := clock.uptimeMs + delay
    utcEpochMs := clock.utcEpochMs.map (· + delay) }

/-- A poll works out now when the entry is due next; another one, `delay` milliseconds later,
finds it due. -/
def DueAfter : Prop :=
  (dueEntry (clock.later delay) (dueEntry clock e).1).2 = true

/-- The entry fires `delay` milliseconds from now: a poll finds it due now, or not before then. -/
def FiresIn : Prop :=
  if (dueEntry clock e).2 then delay = 0 else IsLeast {delay | DueAfter clock e delay} delay

def Entry.timed : Prop := e.kind = .onceRelative ∨ e.kind = .interval

instance (e : Entry) : Decidable e.timed := inferInstanceAs (Decidable (_ ∨ _))

def Entry.awaits : Prop := e.enabled = true ∧ ¬e.timed ∧ e.nextUtcSeconds = 0

instance (e : Entry) : Decidable e.awaits := inferInstanceAs (Decidable (_ ∧ _))

/-- The time that the entry has stored is over in `delay` milliseconds. -/
def Entry.overIn : Prop :=
  if e.timed then e.nextUptimeMs ≤ clock.uptimeMs + delay
  else e.nextUtcSeconds ≠ 0 ∧ ∃ epochMs ∈ clock.utcEpochMs, e.nextUtcSeconds * 1000 ≤ epochMs + delay

def Covered (t : Table) : Prop :=
  ∀ e ∈ t.entries, e.awaits → ∀ delay, FiresIn clock e delay →
    ∃ other ∈ t.entries, other.enabled = true ∧ other.overIn clock (max delay 1)

end

variable {clock : Clock} {e : Entry} {t : Table}

variable {limit : Nat}

end SolarOs.Schedule
