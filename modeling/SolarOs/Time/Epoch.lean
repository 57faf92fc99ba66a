import Mathlib.Data.List.Basic
import SolarOs.Esp
import SolarOs.Library.Calendar

/-! Dates and times of day as seconds since the epoch. -/
namespace SolarOs.Time
open Calendar Date

/-- `solar_os_datetime_t`, without what the clock says of its own integrity. -/
structure Datetime where
  year : UInt16
  month : UInt8
  day : UInt8
  hour : UInt8
  minute : UInt8
  second : UInt8
  weekday : UInt8
  deriving DecidableEq

def daysPerMonth : List UInt8 := [31, 28, 31, 30, 31, 30, 31, 31, 30, 31, 30, 31]

def datetimeIsValid (datetime : Datetime) : Bool :=
  if datetime.year < 2000 || datetime.month < 1 || datetime.month > 12 || datetime.day < 1 ||
      datetime.hour > 23 || datetime.minute > 59 || datetime.second > 59 || datetime.weekday > 6 then
    false
  else
    let days := daysPerMonth.getD (datetime.month.toNat - 1) 0
    let leap := (datetime.year % 4 = 0 && datetime.year % 100 ≠ 0) || datetime.year % 400 = 0
    datetime.day ≤ if datetime.month = 2 && leap then 29 else days

/-- The months are counted from March, through unsigned arithmetic that wraps. -/
def daysFromCivil (year : Int) (month day : UInt32) : Int :=
  let year := if month ≤ 2 then year - 1 else year
  let era := (if year ≥ 0 then year else year - 399).tdiv 400
  let yoe := UInt32.ofInt (year - era * 400)
  let doy := (153 * (month + if month > 2 then -3 else 9) + 2) / 5 + day - 1
  let doe := yoe * 365 + yoe / 4 - yoe / 100 + doy
  era * 146097 + doe.toNat - 719468

def secondsPerDay : Int := 86400

def epochFromUtcDatetime (datetime : Datetime) : Except EspErr Int :=
  if !datetimeIsValid datetime then .error .invalidArg
  else
    let days := daysFromCivil datetime.year.toNat datetime.month.toUInt32 datetime.day.toUInt32
    .ok (days * secondsPerDay + datetime.hour.toNat * 3600 + datetime.minute.toNat * 60 + datetime.second.toNat)

theorem marchMonth_toNat {month : UInt32} (positive : 1 ≤ month.toNat) (le : month.toNat ≤ 12) :
    (month + if month > 2 then -3 else 9).toNat =
      if month.toNat ≤ 2 then month.toNat + 9 else month.toNat - 3 := by
  by_cases later : month > 2
  · have above : 2 < month.toNat := later
    rw [if_pos later, if_neg (by omega), UInt32.toNat_add, show (-3 : UInt32).toNat = 2 ^ 32 - 3 from rfl]
    omega
  · have early : ¬2 < month.toNat := later
    rw [if_neg later, if_pos (by omega), UInt32.toNat_add, show (9 : UInt32).toNat = 9 from rfl]
    omega

theorem daysFromCivil_eq {year : Nat} {month day : UInt32} (late : 0 < year) (yearLt : year < 2 ^ 16)
    (monthPos : 1 ≤ month.toNat) (monthLe : month.toNat ≤ 12) (dayPos : 1 ≤ day.toNat) (dayLe : day.toNat ≤ 31) :
    daysFromCivil year month day = monthStart year month.toNat + day.toNat - 1 := by
  have march := marchMonth_toNat monthPos monthLe
  have y : ∃ y : Nat, y < 2 ^ 16 ∧ (if month ≤ 2 then (year : Int) - 1 else year) = y := by
    split
    · exact ⟨year - 1, by omega, by omega⟩
    · exact ⟨year, yearLt, rfl⟩
  obtain ⟨y, small, eq⟩ := y
  have early : (if month.toNat ≤ 2 then (year : Int) - 1 else year) = y := eq
  simp only [daysFromCivil, monthStart, eq, early]
  generalize (month + if month > 2 then -3 else 9) = m at march
  rw [← march]
  have bound : m.toNat ≤ 11 := by
    rw [march]
    split <;> omega
  have era : (if (y : Int) ≥ 0 then (y : Int) else y - 399).tdiv 400 = y / 400 := by
    rw [if_pos (Int.natCast_nonneg y), Int.tdiv_eq_ediv_of_nonneg (Int.natCast_nonneg y)]
  have rest : (y : Int) - y / 400 * 400 = (y % 400 : Nat) := by omega
  rw [era, rest]
  have yoe : (UInt32.ofInt (y % 400 : Nat)).toNat = y % 400 := by
    rw [UInt32.ofInt, UInt32.toNat_ofNat']
    omega
  generalize UInt32.ofInt (y % 400 : Nat) = years at yoe ⊢
  have scaled : ((153 * m + 2) / 5).toNat = (153 * m.toNat + 2) / 5 := by
    simp only [UInt32.toNat_add, UInt32.toNat_mul, UInt32.toNat_div, UInt32.toNat_ofNat, Nat.reducePow, Nat.reduceMod]
    rw [Nat.mod_eq_of_lt (show 153 * m.toNat < 4294967296 by omega), Nat.mod_eq_of_lt (by omega)]
  have doy : ((153 * m + 2) / 5 + day - 1).toNat = (153 * m.toNat + 2) / 5 + day.toNat - 1 := by
    simp only [UInt32.toNat_sub, UInt32.toNat_add, scaled, UInt32.toNat_ofNat, Nat.reducePow, Nat.reduceMod]
    omega
  have leaps : (years * 365 + years / 4 - years / 100).toNat =
      y % 400 * 365 + y % 400 / 4 - y % 400 / 100 := by
    simp only [UInt32.toNat_sub, UInt32.toNat_add, UInt32.toNat_mul, UInt32.toNat_div, yoe, UInt32.toNat_ofNat,
      Nat.reducePow, Nat.reduceMod]
    omega
  rw [UInt32.toNat_add, leaps, doy, Nat.mod_eq_of_lt (by omega)]
  omega

def secondsOfDay (datetime : Datetime) : Nat :=
  datetime.hour.toNat * 3600 + datetime.minute.toNat * 60 + datetime.second.toNat

theorem leap_eq (year : UInt16) :
    ((year % 4 = 0 && year % 100 ≠ 0) || year % 400 = 0 : Bool) = leapYear year.toNat := by
  have divides (k : UInt16) : year % k = 0 ↔ (year.toNat : Int) % k.toNat = 0 := by
    rw [← UInt16.toNat_inj, UInt16.toNat_mod]
    exact (Int.natCast_eq_zero (n := year.toNat % k.toNat)).symm
  simp only [leapYear, divides, ne_eq]
  rfl

theorem length_eq {month : UInt8} (positive : 1 ≤ month.toNat) (le : month.toNat ≤ 12) (year : Int) :
    (if month = 2 && leapYear year then 29 else daysPerMonth.getD (month.toNat - 1) 0).toNat =
      monthDays year month.toNat := by
  have lengths : ∀ month : Fin 13, 1 ≤ month.val → ∀ leap : Bool,
      (if UInt8.ofNat month = 2 && leap then 29 else daysPerMonth.getD (month.val - 1) 0).toNat =
        if month.val = 2 then if leap then 29 else 28
        else if month.val = 4 ∨ month.val = 6 ∨ month.val = 9 ∨ month.val = 11 then 30
        else 31 := by decide
  have here := lengths ⟨month.toNat, by omega⟩ positive (leapYear year)
  rwa [UInt8.ofNat_toNat] at here

structure Datetime.On (datetime : Datetime) (d : Date) : Prop where
  year : d.year = datetime.year.toNat
  month : d.month = datetime.month.toNat
  day : d.day = datetime.day.toNat

section
variable {t u : Datetime} {d e : Date}

/-- A valid date is one that the calendar has. -/
theorem exists_on (valid : datetimeIsValid t = true) : (∃ d, t.On d) ∧ 2000 ≤ t.year.toNat ∧
    t.hour.toNat ≤ 23 ∧ t.minute.toNat ≤ 59 ∧ t.second.toNat ≤ 59 := by
  unfold datetimeIsValid at valid
  split at valid
  · cases valid
  · rename_i inside
    simp only [Bool.or_eq_true, decide_eq_true_eq, not_or, UInt16.not_lt, UInt8.not_lt, gt_iff_lt] at inside
    obtain ⟨⟨⟨⟨⟨⟨⟨year, month⟩, month'⟩, day⟩, hour⟩, minute⟩, second⟩, -⟩ := inside
    have last := of_decide_eq_true valid
    rw [leap_eq] at last
    have last := UInt8.le_iff_toNat_le.mp last
    rw [length_eq month month'] at last
    exact ⟨⟨⟨t.year.toNat, _, _, month, month', day, last⟩, rfl, rfl, rfl⟩, year, hour, minute, second⟩

theorem epoch_eq (valid : datetimeIsValid t = true) (on : t.On d) :
    epochFromUtcDatetime t = .ok (d.serial * 86400 + secondsOfDay t) := by
  have late := (exists_on valid).2.1
  have whole := monthDays_le d.year d.month
  have days := @daysFromCivil_eq t.year.toNat t.month.toUInt32 t.day.toUInt32 (by omega) t.year.toNat_lt
  rw [UInt8.toNat_toUInt32, UInt8.toNat_toUInt32, ← on.month, ← on.day, ← on.year] at days
  rw [epochFromUtcDatetime, if_neg (by rw [valid]; decide), ← on.year,
    days d.month_pos d.month_le d.day_pos (Nat.le_trans d.day_le whole), secondsPerDay, serial, secondsOfDay]
  refine congrArg Except.ok ?_
  omega

def Datetime.fields (t : Datetime) : List Nat :=
  [t.year.toNat, t.month.toNat, t.day.toNat, t.hour.toNat, t.minute.toNat, t.second.toNat]

theorem serial_lt_of_fields_lt (validT : datetimeIsValid t = true) (validU : datetimeIsValid u = true)
    (onT : t.On d) (onU : u.On e) (before : t.fields < u.fields) :
    d.serial * 86400 + secondsOfDay t < e.serial * 86400 + secondsOfDay u := by
  obtain ⟨-, -, hour, minute, second⟩ := exists_on validT
  obtain ⟨-, -, hour', minute', second'⟩ := exists_on validU
  simp only [Datetime.fields, List.cons_lt_cons_iff, List.not_lt_nil, and_false, or_false] at before
  rw [← onT.month, ← onU.month, ← onT.day, ← onU.day] at before
  have year : (t.year.toNat : Int) = d.year := onT.year.symm
  have year' : (u.year.toNat : Int) = e.year := onU.year.symm
  unfold secondsOfDay
  by_cases days : d.Before e
  · have later := days.serial_lt
    omega
  · have same : d.year = e.year ∧ d.month = e.month ∧ d.day = e.day := by
      unfold Before at days
      omega
    have equal : d.serial = e.serial := by rw [serial, serial, same.1, same.2.1, same.2.2]
    omega

end

/-- Every valid date and time is as many seconds after the epoch as its day, counted one by one, and
its time of day make; a later one has more, and a day is 86400. -/
theorem epochFromUtcDatetime_counts : (∀ t, datetimeIsValid t = true → ∃ (d : Date) (days : Nat), t.On d ∧
      (∀ n, next^[n] epoch = d ↔ n = days) ∧ epochFromUtcDatetime t = .ok (86400 * days + secondsOfDay t)) ∧
    (∀ t u, datetimeIsValid t = true → datetimeIsValid u = true → t.fields < u.fields →
      ∃ earlier later, epochFromUtcDatetime t = .ok earlier ∧ epochFromUtcDatetime u = .ok later ∧
        earlier < later) ∧ ∀ t u d, datetimeIsValid t = true → datetimeIsValid u = true → t.On d → u.On d.next →
      secondsOfDay t = secondsOfDay u →
      ∃ seconds, epochFromUtcDatetime t = .ok seconds ∧ epochFromUtcDatetime u = .ok (seconds + 86400) := by
  refine ⟨fun t valid => ?_, fun t u validT validU before => ?_, fun t u d validT validU onT onU same => ?_⟩
  · obtain ⟨⟨d, on⟩, late, -⟩ := exists_on valid
    have counted : (d.serial.toNat : Int) = d.serial := Int.toNat_of_nonneg (serial_nonneg (by rw [on.year]; omega))
    refine ⟨d, d.serial.toNat, on, fun n => ?_, ?_⟩
    · rw [iterate_eq_iff]
      omega
    · rw [epoch_eq valid on, counted, Int.mul_comm]
  · obtain ⟨d, onT⟩ := (exists_on validT).1
    obtain ⟨e, onU⟩ := (exists_on validU).1
    exact ⟨_, _, epoch_eq validT onT, epoch_eq validU onU, serial_lt_of_fields_lt validT validU onT onU before⟩
  · refine ⟨_, epoch_eq validT onT, ?_⟩
    rw [epoch_eq validU onU, serial_next, same]
    refine congrArg Except.ok ?_
    omega

/-- The last day of February in a leap year, and the first of March. -/
theorem epochFromUtcDatetime_march : ∃ seconds,
    epochFromUtcDatetime ⟨2024, 2, 29, 12, 0, 0, 4⟩ = .ok seconds ∧
      epochFromUtcDatetime ⟨2024, 3, 1, 12, 0, 0, 5⟩ = .ok (seconds + 86400) :=
  epochFromUtcDatetime_counts.2.2 _ _ ⟨2024, 2, 29, by decide, by decide, by decide, by decide⟩
    (by decide) (by decide) ⟨rfl, rfl, rfl⟩ ⟨rfl, rfl, rfl⟩ rfl

end SolarOs.Time
