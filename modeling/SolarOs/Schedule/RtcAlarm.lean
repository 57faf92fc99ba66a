import SolarOs.Esp
import SolarOs.Library.Calendar
import SolarOs.Library.Machine
import Mathlib.Order.Bounds.Basic
import Mathlib.Data.Nat.Find
import Mathlib.Algebra.Group.Int.Defs

/-! The alarm of the real-time clock that the schedule arms: which times a day of the month and
a time of day can stand for, and who holds the alarm. -/
namespace SolarOs.Schedule
open Calendar List

/-- `struct tm`, as far as it is read. -/
structure Tm where
  mday : Nat
  hour : Nat
  min : Nat
  sec : Nat
  deriving DecidableEq

/-- `gmtime_r`, which fails where the year does not fit `tm_year`. -/
def gmtime (timestamp : Int) : Option Tm :=
  let date := Date.ofDays (timestamp / 86400)
  let time := (timestamp % 86400).toNat
  if -2 ^ 31 ≤ date.year - 1900 ∧ date.year - 1900 < 2 ^ 31 then
    some { mday := date.day, hour := time / 3600, min := time / 60 % 60, sec := time % 60 }
  else none

/-- The conversion to `time_t`. -/
def timeT (seconds : UInt64) : Int := seconds.toInt64.toInt

/-- The loop of `rtc_alarm_can_represent` over the offsets. -/
def searchAlarm (nowUtc targetUtc dayStart timeOfDay : UInt64) (mday : Nat) : List Nat → Bool
  | [] => false
  | offset :: offsets =>
    let candidate := dayStart + UInt64.ofNat offset * 86400 + timeOfDay
    if candidate ≤ nowUtc then searchAlarm nowUtc targetUtc dayStart timeOfDay mday offsets
    else
      match gmtime (timeT candidate) with
      | none => false
      | some tm =>
        if tm.mday = mday then candidate = targetUtc
        else searchAlarm nowUtc targetUtc dayStart timeOfDay mday offsets

def rtcAlarmCanRepresent (nowUtc targetUtc : UInt64) : Bool :=
  match gmtime (timeT targetUtc) with
  | none => false
  | some tm =>
    let dayStart := nowUtc - nowUtc % 86400
    let timeOfDay := UInt64.ofNat tm.hour * 3600 + UInt64.ofNat tm.min * 60 + UInt64.ofNat tm.sec
    searchAlarm nowUtc targetUtc dayStart timeOfDay tm.mday (List.range 63)

def dayAt (t : Nat) : Nat := (Date.ofDays (t / 86400 : Nat)).day

def hourAt (t : Nat) : Nat := t % 86400 / 3600

def minuteAt (t : Nat) : Nat := t % 3600 / 60

def secondAt (t : Nat) : Nat := t % 60

/-- Two instants that an alarm for a day of the month does not tell apart. -/
structure SameFields (t target : Nat) : Prop where
  day : dayAt t = dayAt target
  hour : hourAt t = hourAt target
  minute : minuteAt t = minuteAt target
  second : secondAt t = secondAt target

def FirstAfter (now target : Nat) : Prop := IsLeast {t | now < t ∧ SameFields t target} target

theorem sameFields_iff {t target : Nat} :
    SameFields t target ↔ dayAt t = dayAt target ∧ t % 86400 = target % 86400 := by
  constructor
  · intro h
    have hour : t % 86400 / 3600 = target % 86400 / 3600 := h.hour
    have minute : t % 3600 / 60 = target % 3600 / 60 := h.minute
    have second : t % 60 = target % 60 := h.second
    exact ⟨h.day, by omega⟩
  · rintro ⟨day, time⟩
    refine ⟨day, ?_, ?_, ?_⟩
    · unfold hourAt
      rw [time]
    · unfold minuteAt
      omega
    · unfold secondAt
      omega

theorem gmtime_nat {t : Nat} (early : t < 2 ^ 55) :
    gmtime t = some { mday := dayAt t, hour := hourAt t, min := minuteAt t, sec := secondAt t } := by
  have days : (t : Int) / 86400 = ((t / 86400 : Nat) : Int) := by omega
  have time : ((t : Int) % 86400).toNat = t % 86400 := by omega
  obtain ⟨late, slow⟩ := Date.year_ofDays (t / 86400)
  unfold gmtime
  rw [days, time]
  dsimp only
  rw [if_pos (by omega)]
  have minute : t % 86400 / 60 % 60 = minuteAt t := by
    unfold minuteAt
    omega
  have second : t % 86400 % 60 = secondAt t := by
    unfold secondAt
    omega
  rw [minute, second]
  rfl

theorem timeT_of_lt {seconds : UInt64} (h : seconds.toNat < 2 ^ 63) : timeT seconds = seconds.toNat := by
  unfold timeT
  have parts : seconds.toInt64.toInt = (UInt64.ofNat seconds.toNat).toInt64.toInt := by
    rw [UInt64.ofNat_toNat]
  rw [parts, UInt64.toInt64_ofNat', Int64.toInt_ofNat_of_lt h]

def candidateAt (now time offset : Nat) : Nat := now / 86400 * 86400 + offset * 86400 + time

variable {now time offset : Nat}

theorem candidateAt_early (hnow : now * 1000 < 2 ^ 64) (htime : time < 86400)
    (hoffset : offset ≤ 62) : candidateAt now time offset < 2 ^ 55 := by
  have start : now / 86400 * 86400 ≤ 18446744073709551 := le_trans (Nat.div_mul_le_self now 86400) (by omega)
  have days : offset * 86400 ≤ 62 * 86400 := Nat.mul_le_mul_right 86400 hoffset
  calc candidateAt now time offset
      ≤ 18446744073709551 + 62 * 86400 + 86400 :=
        Nat.add_le_add (Nat.add_le_add start days) (le_of_lt htime)
    _ < 2 ^ 55 := by decide

theorem candidate_toNat {nowUtc timeOfDay : UInt64} (hnow : nowUtc.toNat * 1000 < 2 ^ 64)
    (htime : timeOfDay.toNat < 86400) {offset : Nat} (hoffset : offset ≤ 62) :
    (nowUtc - nowUtc % 86400 + UInt64.ofNat offset * 86400 + timeOfDay).toNat =
      candidateAt nowUtc.toNat timeOfDay.toNat offset := by
  have day : (86400 : UInt64).toNat = 86400 := rfl
  have whole : (nowUtc % 86400).toNat = nowUtc.toNat % 86400 := by rw [UInt64.toNat_mod, day]
  have start : (nowUtc - nowUtc % 86400).toNat = nowUtc.toNat / 86400 * 86400 := by
    rw [UInt64.toNat_sub_of_le _ _ (UInt64.le_iff_toNat_le.mpr (by omega)), whole]
    omega
  have days : (UInt64.ofNat offset * 86400).toNat = offset * 86400 := by
    rw [UInt64.toNat_mul, day, UInt64.toNat_ofNat_of_lt' (lt_of_le_of_lt hoffset (by decide))]
    omega
  rw [UInt64.toNat_add, UInt64.toNat_add, start, days]
  unfold candidateAt
  omega

theorem dayAt_candidate (htime : time < 86400) :
    dayAt (candidateAt now time offset) = (Date.next^[offset] (Date.ofDays (now / 86400 : Nat))).day := by
  have days : candidateAt now time offset / 86400 = now / 86400 + offset := by
    unfold candidateAt
    omega
  rw [dayAt, days, Date.ofDays_add]

theorem candidate_mod (htime : time < 86400) : candidateAt now time offset % 86400 = time := by
  unfold candidateAt
  omega

section Search

variable {nowUtc targetUtc timeOfDay : UInt64} {mday : Nat}

theorem searchAlarm_eq (hnow : nowUtc.toNat * 1000 < 2 ^ 64) (htime : timeOfDay.toNat < 86400)
    {offset : Nat} {before after : List Nat} (hoffset : offset ≤ 62) (small : ∀ i ∈ before, i ≤ 62)
    (later : nowUtc.toNat < candidateAt nowUtc.toNat timeOfDay.toNat offset)
    (here : dayAt (candidateAt nowUtc.toNat timeOfDay.toNat offset) = mday)
    (skips : ∀ i ∈ before, nowUtc.toNat < candidateAt nowUtc.toNat timeOfDay.toNat i →
      dayAt (candidateAt nowUtc.toNat timeOfDay.toNat i) ≠ mday) :
    searchAlarm nowUtc targetUtc (nowUtc - nowUtc % 86400) timeOfDay mday
        (before ++ offset :: after) = true ↔
      candidateAt nowUtc.toNat timeOfDay.toNat offset = targetUtc.toNat := by
  have known : ∀ i ≤ 62, gmtime (timeT (nowUtc - nowUtc % 86400 + UInt64.ofNat i * 86400 + timeOfDay)) =
      some {
        mday := dayAt (candidateAt nowUtc.toNat timeOfDay.toNat i)
        hour := hourAt (candidateAt nowUtc.toNat timeOfDay.toNat i)
        min := minuteAt (candidateAt nowUtc.toNat timeOfDay.toNat i)
        sec := secondAt (candidateAt nowUtc.toNat timeOfDay.toNat i) } := by
    intro i hi
    have value := candidate_toNat hnow htime hi
    have early := candidateAt_early hnow htime hi
    have short : (nowUtc - nowUtc % 86400 + UInt64.ofNat i * 86400 + timeOfDay).toNat < 2 ^ 63 := by
      rw [value]
      exact lt_trans early (by decide)
    rw [timeT_of_lt short, value, gmtime_nat early]
  induction before with
  | nil =>
    have value := candidate_toNat hnow htime hoffset
    have after : ¬nowUtc - nowUtc % 86400 + UInt64.ofNat offset * 86400 + timeOfDay ≤ nowUtc := by
      rw [UInt64.le_iff_toNat_le, value]
      exact not_le.mpr later
    rw [nil_append, searchAlarm, if_neg after, known offset hoffset]
    dsimp only
    rw [if_pos here, decide_eq_true_iff, ← value, UInt64.toNat_inj]
  | cons i before ih =>
    have rest := ih (fun j hj => small j (mem_cons_of_mem i hj)) (fun j hj => skips j (mem_cons_of_mem i hj))
    have hi := small i mem_cons_self
    have value := candidate_toNat hnow htime hi
    rw [cons_append, searchAlarm]
    split
    · exact rest
    · rename_i after
      rw [UInt64.le_iff_toNat_le, value] at after
      rw [known i hi]
      dsimp only
      rw [if_neg (skips i mem_cons_self (Nat.lt_of_not_le after))]
      exact rest

theorem searchAlarm_finds (hnow : nowUtc.toNat * 1000 < 2 ^ 64) (htime : timeOfDay.toNat < 86400)
    (day_pos : 1 ≤ mday) (day_le : mday ≤ 31) :
    ∃ offset ≤ 61, (nowUtc.toNat < candidateAt nowUtc.toNat timeOfDay.toNat offset ∧
        dayAt (candidateAt nowUtc.toNat timeOfDay.toNat offset) = mday) ∧
      (∀ i < offset, ¬(nowUtc.toNat < candidateAt nowUtc.toNat timeOfDay.toNat i ∧
        dayAt (candidateAt nowUtc.toNat timeOfDay.toNat i) = mday)) ∧
      ∀ targetUtc, searchAlarm nowUtc targetUtc (nowUtc - nowUtc % 86400) timeOfDay mday (List.range 63) =
        true ↔ candidateAt nowUtc.toNat timeOfDay.toNat offset = targetUtc.toNat := by
  obtain ⟨j, positive, soon, day⟩ := Date.exists_day (Date.ofDays (nowUtc.toNat / 86400 : Nat)) day_pos day_le
  have comes : ∃ offset, nowUtc.toNat < candidateAt nowUtc.toNat timeOfDay.toNat offset ∧
      dayAt (candidateAt nowUtc.toNat timeOfDay.toNat offset) = mday := by
    refine ⟨j, ?_, ?_⟩
    · unfold candidateAt
      omega
    · rw [dayAt_candidate htime, day]
  have first := Nat.find_spec comes
  have least : Nat.find comes ≤ j := Nat.find_min' comes ⟨by unfold candidateAt; omega,
    by rw [dayAt_candidate htime, day]⟩
  have none_ : ∀ i < Nat.find comes, _ := fun i hi => Nat.find_min comes hi
  generalize Nat.find comes = offset at first least none_
  have bound : offset ≤ 61 := le_trans least soon
  refine ⟨offset, bound, first, none_, fun targetUtc => ?_⟩
  have split : List.range 63 = List.range offset ++ offset :: List.map (offset + 1 + ·) (List.range (62 - offset)) := by
    have : 63 = offset + 1 + (62 - offset) := by omega
    rw [this, range_add, range_succ, append_assoc]
    rfl
  rw [split]
  refine searchAlarm_eq hnow htime (by omega) ?_ first.1 first.2 ?_
  · intro i hi
    have := mem_range.mp hi
    omega
  · intro i hi later same
    exact none_ i (mem_range.mp hi) ⟨later, same⟩

end Search

theorem firstAfter_candidate {now target offset : Nat} (first : now < candidateAt now (target % 86400) offset ∧
      dayAt (candidateAt now (target % 86400) offset) = dayAt target)
    (none_ : ∀ i < offset, ¬(now < candidateAt now (target % 86400) i ∧
      dayAt (candidateAt now (target % 86400) i) = dayAt target)) :
    FirstAfter now target ↔ candidateAt now (target % 86400) offset = target := by
  have htime : target % 86400 < 86400 := Nat.mod_lt _ (by decide)
  have least : IsLeast {t | now < t ∧ SameFields t target} (candidateAt now (target % 86400) offset) := by
    constructor
    · exact ⟨first.1, sameFields_iff.mpr ⟨first.2, candidate_mod htime⟩⟩
    · rintro t ⟨later, same⟩
      obtain ⟨day, time⟩ := sameFields_iff.mp same
      have place : t = candidateAt now (target % 86400) (t / 86400 - now / 86400) := by
        unfold candidateAt
        omega
      have reached : offset ≤ t / 86400 - now / 86400 := by
        by_contra earlier
        exact none_ _ (Nat.lt_of_not_le earlier) (place ▸ ⟨later, day⟩)
      rw [place]
      unfold candidateAt
      omega
  constructor
  · intro h
    exact least.unique h
  · intro same
    rw [same] at least
    exact least

theorem gmtime_fields {timestamp : Int} {tm : Tm} (h : gmtime timestamp = some tm) :
    (1 ≤ tm.mday ∧ tm.mday ≤ 31) ∧ tm.hour < 24 ∧ tm.min < 60 ∧ tm.sec < 60 := by
  unfold gmtime at h
  dsimp only at h
  split at h
  · cases h
    have day := (Date.ofDays (timestamp / 86400)).day_le
    have long := monthDays_le (Date.ofDays (timestamp / 86400)).year (Date.ofDays (timestamp / 86400)).month
    have time : (timestamp % 86400).toNat < 86400 := by omega
    exact ⟨⟨(Date.ofDays (timestamp / 86400)).day_pos, le_trans day long⟩,
      Nat.div_lt_of_lt_mul time, Nat.mod_lt _ (by decide), Nat.mod_lt _ (by decide)⟩
  · cases h

theorem timeOfDay_toNat {hour min sec : Nat} (hhour : hour < 24) (hmin : min < 60) (hsec : sec < 60) :
    (UInt64.ofNat hour * 3600 + UInt64.ofNat min * 60 + UInt64.ofNat sec).toNat =
      hour * 3600 + min * 60 + sec := by
  have fits : ∀ n, n < 86400 → (UInt64.ofNat n).toNat = n := fun n hn =>
    UInt64.toNat_ofNat_of_lt' (lt_trans hn (by decide))
  have hours : (UInt64.ofNat hour * 3600).toNat = hour * 3600 := by
    rw [UInt64.toNat_mul, fits hour (by omega)]
    exact Nat.mod_eq_of_lt (by simp; omega)
  have minutes : (UInt64.ofNat min * 60).toNat = min * 60 := by
    rw [UInt64.toNat_mul, fits min (by omega)]
    exact Nat.mod_eq_of_lt (by simp; omega)
  rw [UInt64.toNat_add, UInt64.toNat_add, hours, minutes, fits sec (by omega)]
  omega

theorem time_lt {hour min sec : Nat} (hhour : hour < 24) (hmin : min < 60) (hsec : sec < 60) :
    hour * 3600 + min * 60 + sec < 86400 := by
  omega

theorem rtcAlarmCanRepresent_fields {nowUtc targetUtc : UInt64} (hnow : nowUtc.toNat * 1000 < 2 ^ 64)
    {tm : Tm} (htm : gmtime (timeT targetUtc) = some tm) :
    let timeOfDay := tm.hour * 3600 + tm.min * 60 + tm.sec
    ∃ offset ≤ 61, (nowUtc.toNat < candidateAt nowUtc.toNat timeOfDay offset ∧
        dayAt (candidateAt nowUtc.toNat timeOfDay offset) = tm.mday) ∧
      (∀ i < offset, ¬(nowUtc.toNat < candidateAt nowUtc.toNat timeOfDay i ∧
        dayAt (candidateAt nowUtc.toNat timeOfDay i) = tm.mday)) ∧
      (rtcAlarmCanRepresent nowUtc targetUtc = true ↔
        candidateAt nowUtc.toNat timeOfDay offset = targetUtc.toNat) := by
  obtain ⟨⟨day_pos, day_le⟩, hhour, hmin, hsec⟩ := gmtime_fields htm
  have time := timeOfDay_toNat hhour hmin hsec
  have htime : (UInt64.ofNat tm.hour * 3600 + UInt64.ofNat tm.min * 60 + UInt64.ofNat tm.sec).toNat <
      86400 := by
    rw [time]
    exact time_lt hhour hmin hsec
  obtain ⟨offset, bound, first, none_, found⟩ := searchAlarm_finds hnow htime day_pos day_le
  rw [time] at first none_ found
  refine ⟨offset, bound, first, none_, ?_⟩
  unfold rtcAlarmCanRepresent
  rw [htm]
  exact found targetUtc

theorem time_at (t : Nat) : hourAt t * 3600 + minuteAt t * 60 + secondAt t = t % 86400 := by
  unfold hourAt minuteAt secondAt
  omega

theorem firstAfter_early {nowUtc : UInt64} (hnow : nowUtc.toNat * 1000 < 2 ^ 64) {target : Nat}
    (h : FirstAfter nowUtc.toNat target) : target < 2 ^ 55 := by
  have htime : target % 86400 < 86400 := Nat.mod_lt _ (by decide)
  have value : (UInt64.ofNat (target % 86400)).toNat = target % 86400 :=
    UInt64.toNat_ofNat_of_lt' (lt_trans htime (by decide))
  have day := (Date.ofDays (target / 86400 : Nat)).day_le
  have long := monthDays_le (Date.ofDays (target / 86400 : Nat)).year (Date.ofDays (target / 86400 : Nat)).month
  obtain ⟨offset, bound, first, none_, -⟩ := @searchAlarm_finds nowUtc
    (UInt64.ofNat (target % 86400)) (dayAt target) hnow (by rw [value]; exact htime) (Date.ofDays (target / 86400 : Nat)).day_pos (le_trans day long)
  rw [value] at first none_
  have early := candidateAt_early hnow htime (Nat.le_succ_of_le bound)
  rwa [(firstAfter_candidate first none_).mp h] at early

theorem rtcAlarmCanRepresent_iff {nowUtc : UInt64} (hnow : nowUtc.toNat * 1000 < 2 ^ 64) (targetUtc : UInt64) :
    rtcAlarmCanRepresent nowUtc targetUtc = true ↔ FirstAfter nowUtc.toNat targetUtc.toNat := by
  by_cases early : targetUtc.toNat < 2 ^ 55
  · have known := gmtime_nat early
    rw [← timeT_of_lt (lt_trans early (by decide))] at known
    obtain ⟨offset, -, first, none_, found⟩ := rtcAlarmCanRepresent_fields hnow known
    dsimp only at first none_ found
    rw [time_at] at first none_ found
    rw [found, firstAfter_candidate first none_]
  · refine iff_of_false ?_ fun h => early (firstAfter_early hnow h)
    cases htm : gmtime (timeT targetUtc) with
    | none =>
      unfold rtcAlarmCanRepresent
      rw [htm]
      nofun
    | some tm =>
      obtain ⟨-, hhour, hmin, hsec⟩ := gmtime_fields htm
      obtain ⟨offset, bound, -, -, found⟩ := rtcAlarmCanRepresent_fields hnow htm
      rw [found]
      intro same
      have soon := candidateAt_early hnow (time_lt hhour hmin hsec) (Nat.le_succ_of_le bound)
      rw [same] at soon
      exact early soon

end SolarOs.Schedule
