import Mathlib.Logic.Function.Iterate
import Mathlib.Algebra.Group.Nat.Defs

/-! The Gregorian calendar, day by day: the date a number of days after 1 January 1970, and
how long it takes until a day of the month comes again. -/
namespace Calendar
open Function

def leapYear (year : Int) : Bool := (year % 4 = 0 && year % 100 ≠ 0) || year % 400 = 0

def monthDays (year : Int) (month : Nat) : Nat :=
  if month = 2 then if leapYear year then 29 else 28
  else if month = 4 ∨ month = 6 ∨ month = 9 ∨ month = 11 then 30
  else 31

theorem monthDays_ge (year : Int) (month : Nat) : 28 ≤ monthDays year month := by
  unfold monthDays
  split
  · split <;> decide
  · split <;> decide

theorem monthDays_le (year : Int) (month : Nat) : monthDays year month ≤ 31 := by
  unfold monthDays
  split
  · split <;> decide
  · split <;> decide

structure Date where
  year : Int
  month : Nat
  day : Nat
  month_pos : 1 ≤ month
  month_le : month ≤ 12
  day_pos : 1 ≤ day
  day_le : day ≤ monthDays year month
  deriving DecidableEq

namespace Date

/-- The first day of a month. -/
def firstOf (year : Int) (month : Nat) (month_pos : 1 ≤ month) (month_le : month ≤ 12) : Date where
  year := year
  month := month
  day := 1
  month_pos := month_pos
  month_le := month_le
  day_pos := Nat.le_refl 1
  day_le := Nat.le_trans (by decide) (monthDays_ge year month)

/-- The last day of a month. -/
def lastOf (year : Int) (month : Nat) (month_pos : 1 ≤ month) (month_le : month ≤ 12) : Date where
  year := year
  month := month
  day := monthDays year month
  month_pos := month_pos
  month_le := month_le
  day_pos := Nat.le_trans (by decide) (monthDays_ge year month)
  day_le := Nat.le_refl _

def next (d : Date) : Date :=
  if here : d.day < monthDays d.year d.month then
    { d with day := d.day + 1, day_pos := Nat.succ_pos _, day_le := here }
  else if later : d.month < 12 then .firstOf d.year (d.month + 1) (Nat.succ_pos _) later
  else .firstOf (d.year + 1) 1 (by decide) (by decide)

/-- The day before. -/
def prev (d : Date) : Date :=
  if here : 1 < d.day then
    { d with
      day := d.day - 1
      day_pos := Nat.le_sub_one_of_lt here
      day_le := Nat.le_trans (Nat.sub_le _ _) d.day_le }
  else if earlier : 1 < d.month then
    .lastOf d.year (d.month - 1) (Nat.le_sub_one_of_lt earlier)
      (Nat.le_trans (Nat.sub_le _ _) d.month_le)
  else .lastOf (d.year - 1) 12 (by decide) (by decide)

def epoch : Date := .firstOf 1970 1 (by decide) (by decide)

def ofDays : Int → Date
  | .ofNat n => next^[n] epoch
  | .negSucc n => prev^[n + 1] epoch

variable {d : Date} {j : Nat}

theorem next_iterate_within (h : d.day + j ≤ monthDays d.year d.month) :
    (next^[j] d).year = d.year ∧ (next^[j] d).month = d.month ∧ (next^[j] d).day = d.day + j := by
  induction j with
  | zero => exact ⟨rfl, rfl, rfl⟩
  | succ j ih =>
    obtain ⟨year, month, day⟩ := ih (by omega)
    have here : (next^[j] d).day < monthDays (next^[j] d).year (next^[j] d).month := by
      rw [year, month, day]
      omega
    rw [iterate_succ_apply', next, dif_pos here]
    exact ⟨year, month, congrArg (· + 1) day⟩

def nextMonth (year : Int) (month : Nat) : Int × Nat :=
  if month < 12 then (year, month + 1) else (year + 1, 1)

theorem next_iterate_turn :
    let e := next^[monthDays d.year d.month - d.day + 1] d
    e.day = 1 ∧ (e.year, e.month) = nextMonth d.year d.month := by
  have fits := d.day_le
  obtain ⟨year, month, day⟩ := next_iterate_within (d := d) (j := monthDays d.year d.month - d.day) (by omega)
  rw [iterate_succ_apply', next]
  have past : ¬(next^[monthDays d.year d.month - d.day] d).day <
      monthDays (next^[monthDays d.year d.month - d.day] d).year
        (next^[monthDays d.year d.month - d.day] d).month := by
    rw [year, month, day]
    omega
  rw [dif_neg past, nextMonth]
  by_cases later : d.month < 12
  · have turns : (next^[monthDays d.year d.month - d.day] d).month < 12 := by rwa [month]
    rw [dif_pos turns, if_pos later]
    exact ⟨rfl, Prod.ext year (congrArg (· + 1) month)⟩
  · have turns : ¬(next^[monthDays d.year d.month - d.day] d).month < 12 := by rwa [month]
    rw [dif_neg turns, if_neg later]
    exact ⟨rfl, Prod.ext (congrArg (· + 1) year) rfl⟩

theorem monthDays_nextMonth {year : Int} {month : Nat} (short : monthDays year month ≤ 30) :
    monthDays (nextMonth year month).1 (nextMonth year month).2 = 31 := by
  have which : month = 2 ∨ month = 4 ∨ month = 6 ∨ month = 9 ∨ month = 11 := by
    unfold monthDays at short
    split at short
    · rename_i february
      exact .inl february
    · split at short
      · rename_i other
        exact .inr other
      · omega
  rcases which with rfl | rfl | rfl | rfl | rfl <;> rfl

theorem exists_day (d : Date) {day : Nat} (day_pos : 1 ≤ day) (day_le : day ≤ 31) :
    ∃ j, 1 ≤ j ∧ j ≤ 61 ∧ (next^[j] d).day = day := by
  have fits := d.day_le
  have positive := d.day_pos
  have long := monthDays_le d.year d.month
  by_cases here : d.day < day ∧ day ≤ monthDays d.year d.month
  · -- later in this month
    refine ⟨day - d.day, by omega, by omega, ?_⟩
    rw [(next_iterate_within (by omega)).2.2]
    omega
  · obtain ⟨first, turned⟩ := next_iterate_turn (d := d)
    generalize hm : next^[monthDays d.year d.month - d.day + 1] d = m at first turned
    have year : m.year = (nextMonth d.year d.month).1 := congrArg Prod.fst turned
    have month : m.month = (nextMonth d.year d.month).2 := congrArg Prod.snd turned
    have from_ : ∀ i, next^[i + (monthDays d.year d.month - d.day + 1)] d = next^[i] m := by
      intro i
      rw [iterate_add_apply, hm]
    by_cases next_ : day ≤ monthDays m.year m.month
    · -- in the month after
      refine ⟨day - 1 + (monthDays d.year d.month - d.day + 1), by omega, by omega, ?_⟩
      rw [from_, (next_iterate_within (by omega)).2.2, first]
      omega
    · -- the month after is too short, and the one after it is not
      have short : monthDays m.year m.month ≤ 30 := by omega
      have whole : monthDays d.year d.month = 31 := by
        by_contra other
        rw [year, month, monthDays_nextMonth (by omega)] at short
        omega
      obtain ⟨first', turned'⟩ := next_iterate_turn (d := m)
      generalize hm' : next^[monthDays m.year m.month - m.day + 1] m = m' at first' turned'
      have room : monthDays m'.year m'.month = 31 := by
        have := monthDays_nextMonth short
        rwa [← turned'] at this
      refine ⟨day - 1 + (monthDays m.year m.month - m.day + 1) +
        (monthDays d.year d.month - d.day + 1), by omega, by omega, ?_⟩
      rw [from_, iterate_add_apply, hm', (next_iterate_within (by omega)).2.2, first']
      omega

theorem ofDays_add (n j : Nat) : ofDays (n + j : Nat) = next^[j] (ofDays n) := by
  show next^[n + j] epoch = next^[j] (next^[n] epoch)
  rw [Nat.add_comm, iterate_add_apply]

theorem year_next_ge (d : Date) : d.year ≤ d.next.year := by
  unfold next
  split
  · exact Int.le_refl _
  · split
    · exact Int.le_refl _
    · show d.year ≤ d.year + 1
      omega

/-- A count of days that grows at least as slowly as the days: years of twelve months of 28 days. -/
def count (d : Date) : Int := 336 * d.year + 28 * (d.month - 1 : Nat) + min (d.day - 1) 27

theorem count_next_le (d : Date) : d.next.count ≤ d.count + 1 := by
  have positive := d.day_pos
  have first := d.month_pos
  have long := monthDays_ge d.year d.month
  unfold next
  split
  · show 336 * d.year + 28 * ((d.month - 1 : Nat) : Int) + ((min (d.day + 1 - 1) 27 : Nat) : Int) ≤ _
    unfold count
    omega
  · split
    · show 336 * d.year + 28 * ((d.month + 1 - 1 : Nat) : Int) + ((min (1 - 1) 27 : Nat) : Int) ≤ _
      unfold count
      omega
    · show 336 * (d.year + 1) + 28 * ((1 - 1 : Nat) : Int) + ((min (1 - 1) 27 : Nat) : Int) ≤ _
      have last := d.month_le
      unfold count
      omega

theorem year_ofDays (n : Nat) : 1970 ≤ (ofDays n).year ∧ 336 * ((ofDays n).year - 1970) ≤ n := by
  have counts : 1970 ≤ (ofDays n).year ∧ (ofDays n).count ≤ 336 * 1970 + n := by
    induction n with
    | zero => exact ⟨Int.le_refl _, Int.le_refl _⟩
    | succ n ih =>
      have step : ofDays (n + 1 : Nat) = (ofDays n).next := by
        show next^[n + 1] epoch = _
        rw [iterate_succ_apply']
        rfl
      have slow := count_next_le (ofDays n)
      rw [step]
      exact ⟨Int.le_trans ih.1 (year_next_ge _), by omega⟩
  obtain ⟨late, slow⟩ := counts
  unfold count at slow
  exact ⟨late, by omega⟩

/-- The days from the epoch to the first of a month, by a year that begins in March. -/
def monthStart (year : Int) (month : Nat) : Int :=
  let y := if month ≤ 2 then year - 1 else year
  let m := if month ≤ 2 then month + 9 else month - 3
  365 * y + y / 4 - y / 100 + y / 400 + ((153 * m + 2) / 5 : Nat) - 719468

theorem monthStart_nextMonth (year : Int) {month : Nat} (positive : 1 ≤ month) (le : month ≤ 12) :
    monthStart (nextMonth year month).1 (nextMonth year month).2 =
      monthStart year month + monthDays year month := by
  have cases_ : month = 1 ∨ month = 2 ∨ month = 3 ∨ month = 4 ∨ month = 5 ∨ month = 6 ∨ month = 7 ∨ month = 8 ∨
      month = 9 ∨ month = 10 ∨ month = 11 ∨ month = 12 := by omega
  rcases cases_ with rfl | rfl | rfl | rfl | rfl | rfl | rfl | rfl | rfl | rfl | rfl | rfl
  case inr.inl =>
    -- the only month whose length depends on the year
    by_cases four : year % 4 = 0 <;> by_cases century : year % 100 = 0 <;> by_cases era : year % 400 = 0 <;>
      simp [monthStart, nextMonth, monthDays, leapYear, four, century, era] <;> omega
  all_goals simp [monthStart, nextMonth, monthDays] <;> omega

theorem monthStart_add_le (year : Int) {month later : Nat} (positive : 1 ≤ month) (lt : month < later)
    (last : later ≤ 12) : monthStart year month + monthDays year month ≤ monthStart year later := by
  induction lt with
  | refl =>
    have turn := monthStart_nextMonth year positive (Nat.le_of_succ_le last)
    rw [nextMonth, if_pos (Nat.lt_of_succ_le last)] at turn
    exact Int.le_of_eq turn.symm
  | @step later lt ih =>
    have turn := monthStart_nextMonth year (Nat.le_trans positive (Nat.le_of_succ_le lt)) (Nat.le_of_succ_le last)
    rw [nextMonth, if_pos (Nat.lt_of_succ_le last)] at turn
    calc _ ≤ monthStart year later := ih (Nat.le_of_succ_le last)
      _ ≤ monthStart year later + monthDays year later := Int.le_add_of_nonneg_right (Int.natCast_nonneg _)
      _ = monthStart year (later + 1) := turn.symm

theorem monthStart_first_le (d : Date) : monthStart d.year 1 ≤ monthStart d.year d.month := by
  rcases Nat.lt_or_eq_of_le d.month_pos with later | first
  · exact Int.le_trans (by omega) (monthStart_add_le d.year (Nat.le_refl 1) later d.month_le)
  · exact Int.le_of_eq (congrArg (monthStart d.year) first)

theorem monthStart_year_lt {year later : Int} (lt : year < later) : monthStart year 12 + 31 ≤ monthStart later 1 := by
  simp [monthStart]
  omega

/-- The days from the epoch to the day. -/
def serial (d : Date) : Int := monthStart d.year d.month + d.day - 1

theorem serial_next (d : Date) : d.next.serial = d.serial + 1 := by
  have turn := monthStart_nextMonth d.year d.month_pos d.month_le
  have fits := d.day_le
  unfold next
  split
  · show monthStart d.year d.month + (d.day + 1 : Nat) - 1 = _
    unfold serial
    omega
  · split
    · rename_i later
      rw [nextMonth, if_pos later] at turn
      show monthStart d.year (d.month + 1) + (1 : Nat) - 1 = _
      rw [turn, serial]
      omega
    · rename_i last
      rw [nextMonth, if_neg last] at turn
      show monthStart (d.year + 1) 1 + (1 : Nat) - 1 = _
      rw [turn, serial]
      omega

theorem serial_iterate (n : Nat) : (next^[n] epoch).serial = n := by
  induction n with
  | zero => decide
  | succ n ih =>
    rw [iterate_succ_apply', serial_next, ih]
    rfl

/-- Earlier by year, by month or by day. -/
def Before (d e : Date) : Prop :=
  d.year < e.year ∨ d.year = e.year ∧ (d.month < e.month ∨ d.month = e.month ∧ d.day < e.day)

theorem Before.serial_lt {d e : Date} (h : d.Before e) : d.serial < e.serial := by
  have fits := d.day_le
  have positive := e.day_pos
  unfold serial
  rcases h with year | ⟨year, month | ⟨month, day⟩⟩
  · have turns := monthStart_year_lt year
    have whole : monthStart d.year d.month + monthDays d.year d.month ≤ monthStart d.year 12 + 31 := by
      rcases Nat.lt_or_eq_of_le d.month_le with before | last
      · exact Int.le_trans (monthStart_add_le d.year d.month_pos before (Nat.le_refl 12)) (by omega)
      · rw [last]
        exact Int.le_refl _
    have since := monthStart_first_le e
    omega
  · have whole := monthStart_add_le d.year d.month_pos month e.month_le
    rw [← year]
    omega
  · rw [← year, ← month]
    omega

theorem eq_of_serial {d e : Date} (same : d.serial = e.serial) : d = e := by
  have never : ¬d.Before e ∧ ¬e.Before d :=
    ⟨fun before => absurd same (Int.ne_of_lt before.serial_lt),
      fun before => absurd same.symm (Int.ne_of_lt before.serial_lt)⟩
  unfold Before at never
  obtain ⟨y, m, day, _, _, _, _⟩ := d
  obtain ⟨y', m', day', _, _, _, _⟩ := e
  dsimp only at never
  have year : y = y' := by omega
  have month : m = m' := by omega
  have last : day = day' := by omega
  subst year month last
  rfl

/-- Counting days one by one from the epoch comes to every day from then on, after as many days as
its number says. -/
theorem iterate_eq_iff {d : Date} {n : Nat} : next^[n] epoch = d ↔ (n : Int) = d.serial := by
  constructor
  · rintro rfl
    exact (serial_iterate n).symm
  · intro number
    exact eq_of_serial ((serial_iterate n).trans number)

theorem serial_nonneg {d : Date} (late : 1970 ≤ d.year) : 0 ≤ d.serial := by
  have turns := monthStart_year_lt (Int.lt_of_lt_of_le (by decide : (1969 : Int) < 1970) late)
  have since := monthStart_first_le d
  have start : monthStart 1969 12 = -31 := by decide
  have positive := d.day_pos
  unfold serial
  omega

end Date

end Calendar
