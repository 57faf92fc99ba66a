import SolarOs.Schedule.RtcAlarm

/-! Arming the alarm of the real-time clock: the alarm slot of the clock service, which several
callers share, and what the schedule leaves in it. -/
namespace SolarOs.Schedule
open Calendar

inductive AlarmCaller where
  | direct | shell | lua | python
  deriving DecidableEq

inductive AlarmOwner where
  | schedule
  | caller (name : AlarmCaller)
  deriving DecidableEq

def matchSecond : UInt32 := 1
def matchMinute : UInt32 := 2
def matchHour : UInt32 := 4
def matchDay : UInt32 := 8
def matchWeekday : UInt32 := 16
def matchAll : UInt32 := 31

structure RtcAlarm where
  matchFields : UInt32
  second : Nat
  minute : Nat
  hour : Nat
  day : Nat
  weekday : Nat := 0
  deriving DecidableEq

def alarmIsValid (alarm : RtcAlarm) : Bool :=
  alarm.matchFields ≠ 0 && alarm.matchFields &&& ~~~matchAll = 0 &&
    (alarm.matchFields &&& matchSecond = 0 || alarm.second ≤ 59) &&
    (alarm.matchFields &&& matchMinute = 0 || alarm.minute ≤ 59) &&
    (alarm.matchFields &&& matchHour = 0 || alarm.hour ≤ 23) &&
    (alarm.matchFields &&& matchDay = 0 || (1 ≤ alarm.day && alarm.day ≤ 31)) &&
    (alarm.matchFields &&& matchWeekday = 0 || alarm.weekday ≤ 6)

/-- The alarm goes off: all fields that are to match do. The first of January 1970 was a Thursday. -/
structure RtcAlarm.Rings (alarm : RtcAlarm) (t : Nat) : Prop where
  second : alarm.matchFields &&& matchSecond ≠ 0 → secondAt t = alarm.second
  minute : alarm.matchFields &&& matchMinute ≠ 0 → minuteAt t = alarm.minute
  hour : alarm.matchFields &&& matchHour ≠ 0 → hourAt t = alarm.hour
  day : alarm.matchFields &&& matchDay ≠ 0 → dayAt t = alarm.day
  weekday : alarm.matchFields &&& matchWeekday ≠ 0 → (t / 86400 + 4) % 7 = alarm.weekday

/-- The clock service: whether it has a provider and this one has alarms, who holds the alarm, and
which one the clock has been given. -/
structure Rtc where
  provider : Bool
  alarms : Bool
  alarmOwner : Option AlarmOwner
  device : Option RtcAlarm

/-- What the provider says when it sets or disables an alarm, and which one a failure leaves. -/
structure RtcEnv where
  set : EspErr
  disable : EspErr
  left : Option RtcAlarm

variable (env : RtcEnv)

def setAlarmFor (rtc : Rtc) (owner : AlarmOwner) (alarm : RtcAlarm) : Rtc × EspErr :=
  if alarmIsValid alarm = false then (rtc, .invalidArg)
  else if rtc.alarmOwner ≠ none ∧ rtc.alarmOwner ≠ some owner then (rtc, .invalidState)
  else if rtc.provider = false ∨ rtc.alarms = false then ({ rtc with alarmOwner := none }, .notSupported)
  else if env.set = .ok then ({ rtc with alarmOwner := some owner, device := some alarm }, .ok)
  else ({ rtc with alarmOwner := none, device := env.left }, env.set)

def disableAlarmFor (rtc : Rtc) (owner : AlarmOwner) : Rtc × EspErr :=
  if rtc.alarmOwner ≠ some owner then (rtc, .invalidState)
  else if rtc.provider = false ∨ rtc.alarms = false then (rtc, .notSupported)
  else if env.disable = .ok then ({ rtc with alarmOwner := none, device := none }, .ok)
  else ({ rtc with device := env.left }, env.disable)

/-- `solar_os_rtc_register_provider`, as far as the alarm goes; `accepted` is whether the provider
lets itself be reset. -/
def registerProvider (rtc : Rtc) (alarms accepted : Bool) : Rtc :=
  if rtc.provider then rtc
  else if accepted then { rtc with provider := true, alarms, device := none }
  else { provider := false, alarms := false, alarmOwner := none, device := env.left }

def unregisterProvider (rtc : Rtc) : Rtc :=
  { rtc with provider := false, alarms := false, alarmOwner := none }

/-- The clock service and `armed_utc_seconds`. -/
structure Arming where
  rtc : Rtc
  armedUtc : UInt64

/-- What `update_rtc_alarm` arms. -/
def alarmOf (tm : Tm) : RtcAlarm where
  matchFields := matchSecond ||| matchMinute ||| matchHour ||| matchDay
  second := tm.sec
  minute := tm.min
  hour := tm.hour
  day := tm.mday

def disarm (s : Arming) : Arming where
  rtc := if s.rtc.alarmOwner = some .schedule then (disableAlarmFor env s.rtc .schedule).1 else s.rtc
  armedUtc := 0

def updateRtcAlarm (s : Arming) (nextUtc nowUtc : UInt64) : Arming :=
  if s.rtc.provider = false ∨ s.rtc.alarms = false then { s with armedUtc := 0 }
  else if nextUtc = 0 then disarm env s
  else if rtcAlarmCanRepresent nowUtc nextUtc = false then disarm env s
  else if s.armedUtc = nextUtc ∧ s.rtc.alarmOwner = some .schedule then s
  else
    match gmtime (timeT nextUtc) with
    | none => s
    | some tm =>
      let (rtc, error) := setAlarmFor env s.rtc .schedule (alarmOf tm)
      { rtc, armedUtc := if error = .ok then nextUtc else 0 }

inductive ArmStep where
  | update (env : RtcEnv) (nextUtc nowUtc : UInt64)
  | setAlarm (env : RtcEnv) (name : AlarmCaller) (alarm : RtcAlarm)
  | disableAlarm (env : RtcEnv) (name : AlarmCaller)
  | register (env : RtcEnv) (alarms accepted : Bool)
  | unregister

def armStep (s : Arming) : ArmStep → Arming
  | .update env nextUtc nowUtc => updateRtcAlarm env s nextUtc nowUtc
  | .setAlarm env name alarm => { s with rtc := (setAlarmFor env s.rtc (.caller name) alarm).1 }
  | .disableAlarm env name => { s with rtc := (disableAlarmFor env s.rtc (.caller name)).1 }
  | .register env alarms accepted => { s with rtc := registerProvider env s.rtc alarms accepted }
  | .unregister => { s with rtc := unregisterProvider s.rtc }

def unarmed : Arming where
  rtc := { provider := false, alarms := false, alarmOwner := none, device := none }
  armedUtc := 0

def Arming.holds (s : Arming) : Prop := s.rtc.alarmOwner = some .schedule ∧ s.armedUtc ≠ 0

/-- Without a provider nobody holds the alarm, and what the schedule holds is the alarm for the
time it has noted. -/
structure Arming.Kept (s : Arming) : Prop where
  free : s.rtc.provider = false → s.rtc.alarmOwner = none
  device : s.holds → ∃ tm, gmtime (timeT s.armedUtc) = some tm ∧ s.rtc.device = some (alarmOf tm)

variable {env} {s : Arming}

theorem Arming.Kept.of_other (free : s.rtc.provider = false → s.rtc.alarmOwner = none)
    (other : s.rtc.alarmOwner ≠ some .schedule ∨ s.armedUtc = 0) : s.Kept where
  free := free
  device holds := by
    rcases other with other | zero
    · exact absurd holds.1 other
    · exact absurd zero holds.2

theorem disarm_kept (h : s.Kept) : (disarm env s).Kept := by
  refine .of_other ?_ (.inr rfl)
  intro gone
  unfold disarm at gone ⊢
  split at gone
  · rename_i held
    rw [if_pos held]
    unfold disableAlarmFor at gone ⊢
    rw [if_neg (not_not_intro held)] at gone ⊢
    split at gone
    · rename_i missing
      rw [if_pos missing]
      exact h.free gone
    · rename_i there
      rw [if_neg there]
      split
      · rfl
      · split at gone
        · exact absurd (.inl gone) there
        · exact absurd (.inl gone) there
  · rename_i held
    rw [if_neg held]
    exact h.free gone

variable {rtc : Rtc}

theorem setAlarmFor_free (h : rtc.provider = false → rtc.alarmOwner = none) (owner : AlarmOwner)
    (alarm : RtcAlarm) : (setAlarmFor env rtc owner alarm).1.provider = false →
      (setAlarmFor env rtc owner alarm).1.alarmOwner = none := by
  unfold setAlarmFor
  split
  · exact h
  · split
    · exact h
    · split
      · exact fun _ => rfl
      · rename_i there
        split
        · exact fun gone => absurd (.inl gone) there
        · exact fun _ => rfl

theorem disableAlarmFor_free (h : rtc.provider = false → rtc.alarmOwner = none)
    (owner : AlarmOwner) : (disableAlarmFor env rtc owner).1.provider = false →
      (disableAlarmFor env rtc owner).1.alarmOwner = none := by
  unfold disableAlarmFor
  split
  · exact h
  · split
    · exact h
    · split
      · exact fun _ => rfl
      · exact h

theorem setAlarmFor_holds {owner : AlarmOwner} {alarm : RtcAlarm} (ok : (setAlarmFor env rtc owner alarm).2 = .ok) :
    (setAlarmFor env rtc owner alarm).1.device = some alarm := by
  unfold setAlarmFor at ok ⊢
  split at ok
  · cases ok
  · rename_i valid
    rw [if_neg valid]
    split at ok
    · cases ok
    · rename_i mine
      rw [if_neg mine]
      split at ok
      · cases ok
      · rename_i there
        rw [if_neg there]
        split at ok
        · rename_i set
          rw [if_pos set]
        · rename_i failed
          exact absurd ok failed

/-- An update leaves the alarm as it should be: what is held then is the alarm for the next time,
which the alarm can stand for. -/
structure Updated (s : Arming) (nextUtc nowUtc : UInt64) : Prop where
  armed : s.armedUtc = nextUtc
  represents : rtcAlarmCanRepresent nowUtc nextUtc = true

theorem updateRtcAlarm_spec (env : RtcEnv) (h : s.Kept) (nextUtc nowUtc : UInt64) :
    (updateRtcAlarm env s nextUtc nowUtc).Kept ∧
      ((updateRtcAlarm env s nextUtc nowUtc).holds →
        Updated (updateRtcAlarm env s nextUtc nowUtc) nextUtc nowUtc) := by
  unfold updateRtcAlarm
  split
  · exact ⟨.of_other h.free (.inr rfl), fun holds => absurd rfl holds.2⟩
  · split
    · exact ⟨disarm_kept h, fun holds => absurd rfl holds.2⟩
    · split
      · exact ⟨disarm_kept h, fun holds => absurd rfl holds.2⟩
      · rename_i can
        have represents : rtcAlarmCanRepresent nowUtc nextUtc = true := by simpa using can
        split
        · rename_i already
          exact ⟨h, fun _ => ⟨already.1, represents⟩⟩
        · cases htm : gmtime (timeT nextUtc) with
          | none =>
            unfold rtcAlarmCanRepresent at represents
            rw [htm] at represents
            cases represents
          | some tm =>
            dsimp only
            by_cases ok : (setAlarmFor env s.rtc .schedule (alarmOf tm)).2 = .ok
            · rw [if_pos ok]
              exact ⟨⟨setAlarmFor_free h.free .schedule (alarmOf tm),
                fun _ => ⟨tm, htm, setAlarmFor_holds ok⟩⟩, fun _ => ⟨rfl, represents⟩⟩
            · rw [if_neg ok]
              exact ⟨.of_other (setAlarmFor_free h.free .schedule (alarmOf tm)) (.inr rfl),
                fun holds => absurd rfl holds.2⟩

theorem setAlarmFor_other {name : AlarmCaller} {alarm : RtcAlarm}
    (held : (setAlarmFor env rtc (.caller name) alarm).1.alarmOwner = some .schedule) :
    (setAlarmFor env rtc (.caller name) alarm).1 = rtc := by
  unfold setAlarmFor at held ⊢
  split at held
  · rename_i invalid
    rw [if_pos invalid]
  · rename_i valid
    rw [if_neg valid]
    split at held
    · rename_i other
      rw [if_pos other]
    · split at held
      · cases held
      · split at held <;> cases held

theorem disableAlarmFor_other {name : AlarmCaller}
    (held : (disableAlarmFor env rtc (.caller name)).1.alarmOwner = some .schedule) :
    (disableAlarmFor env rtc (.caller name)).1 = rtc := by
  unfold disableAlarmFor at held ⊢
  split at held
  · rename_i other
    rw [if_pos other]
  · rename_i own
    have mine : rtc.alarmOwner = some (.caller name) := not_not.mp own
    rw [if_neg own]
    split at held
    · rename_i missing
      rw [if_pos missing]
    · split at held
      · cases held
      · rw [mine] at held
        cases held

theorem armStep_kept (h : s.Kept) (step : ArmStep) : (armStep s step).Kept := by
  cases step with
  | update env nextUtc nowUtc => exact (updateRtcAlarm_spec env h nextUtc nowUtc).1
  | setAlarm env name alarm =>
    refine ⟨setAlarmFor_free h.free _ alarm, fun holds => ?_⟩
    obtain ⟨tm, known, given⟩ := h.device (by
      have same := setAlarmFor_other holds.1
      exact ⟨by rw [← same]; exact holds.1, holds.2⟩)
    exact ⟨tm, known, (congrArg Rtc.device (setAlarmFor_other holds.1)).trans given⟩
  | disableAlarm env name =>
    refine ⟨disableAlarmFor_free h.free _, fun holds => ?_⟩
    obtain ⟨tm, known, given⟩ := h.device (by
      have same := disableAlarmFor_other holds.1
      exact ⟨by rw [← same]; exact holds.1, holds.2⟩)
    exact ⟨tm, known, (congrArg Rtc.device (disableAlarmFor_other holds.1)).trans given⟩
  | register env alarms accepted =>
    show Arming.Kept { s with rtc := registerProvider env s.rtc alarms accepted }
    unfold registerProvider
    cases there : s.rtc.provider with
    | true => exact h
    | false =>
      have free := h.free there
      rw [if_neg (by decide)]
      split
      · refine .of_other nofun (.inl ?_)
        rw [free]
        nofun
      · exact .of_other (fun _ => rfl) (.inl nofun)
  | unregister => exact .of_other (fun _ => rfl) (.inl nofun)

theorem alarmOf_rings {target t : Nat} :
    (alarmOf ⟨dayAt target, hourAt target, minuteAt target, secondAt target⟩).Rings t ↔
      SameFields t target := by
  have bits : (matchSecond ||| matchMinute ||| matchHour ||| matchDay) &&& matchSecond ≠ 0 ∧
      (matchSecond ||| matchMinute ||| matchHour ||| matchDay) &&& matchMinute ≠ 0 ∧
        (matchSecond ||| matchMinute ||| matchHour ||| matchDay) &&& matchHour ≠ 0 ∧
          (matchSecond ||| matchMinute ||| matchHour ||| matchDay) &&& matchDay ≠ 0 ∧
            (matchSecond ||| matchMinute ||| matchHour ||| matchDay) &&& matchWeekday = 0 := by
    decide
  obtain ⟨second, minute, hour, day, weekday⟩ := bits
  constructor
  · intro h
    exact ⟨h.day day, h.hour hour, h.minute minute, h.second second⟩
  · intro h
    exact ⟨fun _ => h.second, fun _ => h.minute, fun _ => h.hour, fun _ => h.day, fun other => absurd weekday other⟩

theorem Updated.rings {nextUtc nowUtc : UInt64} (h : Updated s nextUtc nowUtc) (kept : s.Kept)
    (holds : s.holds) (hnow : nowUtc.toNat * 1000 < 2 ^ 64) : ∃ alarm, s.rtc.device = some alarm ∧
      IsLeast {t | nowUtc.toNat < t ∧ alarm.Rings t} nextUtc.toNat := by
  obtain ⟨tm, known, given⟩ := kept.device holds
  have first := (rtcAlarmCanRepresent_iff hnow nextUtc).mp h.represents
  have early := firstAfter_early hnow first
  rw [h.armed, timeT_of_lt (Nat.lt_trans early (by decide)), gmtime_nat early] at known
  cases known
  refine ⟨_, given, ?_⟩
  have same : {t | nowUtc.toNat < t ∧ (alarmOf ⟨dayAt nextUtc.toNat, hourAt nextUtc.toNat,
      minuteAt nextUtc.toNat, secondAt nextUtc.toNat⟩).Rings t} =
      {t | nowUtc.toNat < t ∧ SameFields t nextUtc.toNat} := by
    ext t
    exact and_congr_right fun _ => alarmOf_rings
  rw [same]
  exact first

/-- A target can be represented exactly if it is the first instant after now with its day of the
month, hour, minute and second. So whatever happened before, an alarm that an update leaves with
the schedule goes off first at the time it is set for. Now is a time in milliseconds of 64 bits,
in whole seconds. -/
theorem rtc_alarm_first_match (nowUtc : UInt64) (hnow : nowUtc.toNat * 1000 < 2 ^ 64) :
    (∀ targetUtc, rtcAlarmCanRepresent nowUtc targetUtc = true ↔
        FirstAfter nowUtc.toNat targetUtc.toNat) ∧
      ∀ steps env nextUtc,
        let s := updateRtcAlarm env (Machine.run armStep unarmed steps) nextUtc nowUtc
        s.holds → s.armedUtc = nextUtc ∧ ∃ alarm, s.rtc.device = some alarm ∧
          IsLeast {t | nowUtc.toNat < t ∧ alarm.Rings t} nextUtc.toNat := by
  refine ⟨rtcAlarmCanRepresent_iff hnow, fun steps env nextUtc holds => ?_⟩
  have kept : (Machine.run armStep unarmed steps).Kept :=
    Machine.run_always (P := Arming.Kept) (fun _ step h => armStep_kept h step)
      (.of_other (fun _ => rfl) (.inr rfl)) steps
  obtain ⟨kept', updated⟩ := updateRtcAlarm_spec env kept nextUtc nowUtc
  have fits := updated holds
  exact ⟨fits.armed, fits.rings kept' holds hnow⟩

def willing : RtcEnv where
  set := .ok
  disable := .ok
  left := none

/-- Five seconds after the epoch, with a provider that has alarms. -/
theorem rtc_alarm_first_match_soon : (rtcAlarmCanRepresent 0 5 = true ↔ FirstAfter 0 5) ∧
      (updateRtcAlarm willing (Machine.run armStep unarmed [.register willing true true]) 5 0).armedUtc = 5 ∧
        ∃ alarm, (updateRtcAlarm willing (Machine.run armStep unarmed [.register willing true true])
          5 0).rtc.device = some alarm ∧ IsLeast {t | 0 < t ∧ alarm.Rings t} 5 := by
  obtain ⟨represents, arms⟩ := rtc_alarm_first_match 0 (by decide)
  exact ⟨represents 5, arms [.register willing true true] willing 5 ⟨by decide, by decide⟩⟩

end SolarOs.Schedule
