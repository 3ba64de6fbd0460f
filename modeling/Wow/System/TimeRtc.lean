import Wow.System.TimeRound

/-!
# Wow.System.TimeRtc — the broken-down time there and back

* `TimeInfo.Valid`: the points in time that `TimeInfo_T` can hold, as one of the calendar.
* `rtcToMsec_eq`, `msecToRtc_eq`: both ways in terms of the calendar.
* `rtc_round_iff`: what comes back is what lies in front of the year 2039.
-/

namespace Wow.System

open Calendar

/-- A point in time from 1970 on. -/
structure TimeInfo.Valid (t : TimeInfo) : Prop where
  year : 1970 ≤ t.year.toNat
  mon_pos : 1 ≤ t.mon.toNat
  mon_le : t.mon.toNat ≤ 12
  day_pos : 1 ≤ t.day.toNat
  day_le : t.day.toNat ≤ daysInMonth (isLeap t.year.toNat) t.mon.toNat
  hour : t.hour.toNat < 24
  min : t.min.toNat < 60
  sec : t.sec.toNat < 60
  msec : t.msec.toNat < 1000

/-- The point in time of the calendar. -/
def TimeInfo.Valid.time {t : TimeInfo} (h : t.Valid) : Time 1970 where
  date := ⟨t.year.toNat, t.mon.toNat, t.day.toNat, h.year, h.mon_pos, h.mon_le, h.day_pos, h.day_le⟩
  hour := t.hour.toNat
  min := t.min.toNat
  milli := t.sec.toNat * 1000 + t.msec.toNat
  hour_lt := h.hour
  min_lt := h.min
  milli_lt := by
    have hsec := h.sec
    have hmsec := h.msec
    omega

/-- A point in time of the calendar, broken down. -/
def rtcOf (t : Time 1970) : TimeInfo where
  year := UInt16.ofNat t.date.year
  mon := UInt8.ofNat t.date.mon
  day := UInt8.ofNat t.date.day
  hour := UInt8.ofNat t.hour
  min := UInt8.ofNat t.min
  sec := UInt8.ofNat (t.milli / 1000)
  msec := UInt16.ofNat (t.milli % 1000)

/-- The days of a month fit. -/
theorem daysInMonth_le (leap : Bool) {m : Nat} (hm : m ≤ 12) : daysInMonth leap m ≤ 31 := by
  revert m
  cases leap <;> decide

/-- **The fields hold** a point in time of a year that fits. -/
theorem rtcOf_valid (t : Time 1970) (hyear : t.date.year < 65536) : ∃ h : (rtcOf t).Valid, h.time = t := by
  have hmonth := daysInMonth_le (isLeap t.date.year) t.date.mon_le
  have hday := t.date.day_le
  have hmon := t.date.mon_le
  have hhour := t.hour_lt
  have hmin := t.min_lt
  have hmilli := t.milli_lt
  have eyear : (rtcOf t).year.toNat = t.date.year := Nat.mod_eq_of_lt hyear
  have emon : (rtcOf t).mon.toNat = t.date.mon := Nat.mod_eq_of_lt (show t.date.mon < 256 by omega)
  have eday : (rtcOf t).day.toNat = t.date.day := Nat.mod_eq_of_lt (show t.date.day < 256 by omega)
  have ehour : (rtcOf t).hour.toNat = t.hour := Nat.mod_eq_of_lt (show t.hour < 256 by omega)
  have emin : (rtcOf t).min.toNat = t.min := Nat.mod_eq_of_lt (show t.min < 256 by omega)
  have esec : (rtcOf t).sec.toNat = t.milli / 1000 := Nat.mod_eq_of_lt (show t.milli / 1000 < 256 by omega)
  have emsec : (rtcOf t).msec.toNat = t.milli % 1000 := Nat.mod_eq_of_lt (show t.milli % 1000 < 65536 by omega)
  have hvalid : (rtcOf t).Valid :=
    ⟨eyear ▸ t.date.epoch_le, emon ▸ t.date.mon_pos, emon ▸ hmon, eday ▸ t.date.day_pos,
      by rw [eday, eyear, emon]; exact hday,
      ehour ▸ hhour, emin ▸ hmin, by omega, by omega⟩
  refine ⟨hvalid, Time.ext (Date.ext eyear emon eday) ehour emin ?_⟩
  show (rtcOf t).sec.toNat * 1000 + (rtcOf t).msec.toNat = t.milli
  omega

/-- A valid time is the one that it is of the calendar. -/
theorem rtcOf_time {t : TimeInfo} (h : t.Valid) : rtcOf h.time = t := by
  have hmsec := h.msec
  have hsec : (t.sec.toNat * 1000 + t.msec.toNat) / 1000 = t.sec.toNat := by omega
  have hmilli : (t.sec.toNat * 1000 + t.msec.toNat) % 1000 = t.msec.toNat := by omega
  refine TimeInfo.ext UInt16.ofNat_toNat UInt8.ofNat_toNat UInt8.ofNat_toNat UInt8.ofNat_toNat UInt8.ofNat_toNat ?_ ?_
  · exact (congrArg UInt8.ofNat hsec).trans UInt8.ofNat_toNat
  · exact (congrArg UInt16.ofNat hmilli).trans UInt16.ofNat_toNat

/-- A year that overflows. -/
theorem rtcToMsec_eq_none {t : TimeInfo} (h : 2039 ≤ t.year.toNat) : rtcToMsec t = none := by
  rw [rtcToMsec, dateSec, yearsSec_eq (by omega) t.year.toNat_lt, if_neg (by omega)]
  rfl

/-- **The way back**, up to the year 2038. -/
theorem rtcToMsec_eq {t : TimeInfo} (h : t.Valid) (hle : t.year.toNat ≤ 2038) : rtcToMsec t = some h.time.millis := by
  have hhour := h.hour
  have hmin := h.min
  have hsec := h.sec
  have hmsec := h.msec
  have hday := h.time.date.dayNumber_lt (n := 69) (Nat.lt_succ_of_le hle)
  rw [yearDays_2039] at hday
  have hdate : dateSec t.year.toNat t.year.toNat t.mon.toNat t.day.toNat
      (t.hour.toNat * 3600 + t.min.toNat * 60 + t.sec.toNat) =
      if t.year.toNat ≤ 2038 then some (86400 * h.time.date.dayNumber +
        (t.hour.toNat * 3600 + t.min.toNat * 60 + t.sec.toNat)) else none :=
    dateSec_eq h.time.date t.year.toNat_lt rfl (by omega)
  have hmillis : h.time.millis = ((h.time.date.dayNumber * 24 + t.hour.toNat) * 60 + t.min.toNat) * 60000 +
      (t.sec.toNat * 1000 + t.msec.toNat) := rfl
  rw [rtcToMsec, hdate, if_pos hle, hmillis]
  generalize h.time.date.dayNumber = n at *
  simp only [Option.bind_eq_bind, Option.bind_some]
  have hcast : (((86400 * n + (t.hour.toNat * 3600 + t.min.toNat * 60 + t.sec.toNat) : Nat) : Int) * 1000 + t.msec.toNat) =
      (((n * 24 + t.hour.toNat) * 60 + t.min.toNat) * 60000 + (t.sec.toNat * 1000 + t.msec.toNat) : Nat) := by
    omega
  rw [hcast, asSize_natCast (by omega)]

/-- **The way there**, up to the year 2099. -/
theorem msecToRtc_eq {m : Nat} (hm : m < 86400000 * yearDays 1970 130) :
    ∃ t : Time 1970, t.millis = m ∧ t.date.year < 2100 ∧ msecToRtc m = rtcOf t := by
  have hdays : m / 1000 / 60 / 60 / 24 < yearDays 1970 130 := by
    omega
  obtain ⟨d, hd, hyear, hdate⟩ := dateOf_eq (w := 2 ^ 16) (b := 1970) (a := 1970) (by decide) (by decide) (by decide)
    hdays
  have hfield : (1970 + (d.year - 1970)) % 2 ^ 16 = d.year := by
    have := d.epoch_le
    omega
  refine ⟨⟨d, m / 1000 / 60 / 60 % 24, m / 1000 / 60 % 60, m % 60000, by omega, by omega, by omega⟩, ?_, hyear, ?_⟩
  · rw [Time.millis]
    simp only [hd]
    omega
  · rw [hfield] at hdate
    rw [msecToRtc]
    simp only [hdate, rtcOf]
    rw [show m % 60000 / 1000 = m / 1000 % 60 by omega, show m % 60000 % 1000 = m % 1000 by omega]

/-- The first millisecond of the year 65536, which does not fit the field. -/
def yearLimit : Nat := 86400000 * yearDays 1970 (65536 - 1970)

/-- The first millisecond of the year 2039. -/
def overflowStart : Nat := 2177452800000

/-- The milliseconds of `n` years from the year `e` on. -/
def yearsMillis (e n : Nat) : Nat := 86400000 * yearDays e n

theorem yearsMillis_eq {e n d : Nat} (h : yearDays e n = d) : yearsMillis e n = 86400000 * d := by
  rw [yearsMillis, h]

theorem yearLimit_eq : yearLimit = 86400000 * 23217004 := by
  have hdays : yearDays 1970 (65536 - 1970) = 23217004 := by
    rw [yearDays_eq (by omega)]
    rfl
  -- without a look at the product, which would be computed year by year
  have hmillis : yearLimit = yearsMillis 1970 (65536 - 1970) := rfl
  rw [hmillis, yearsMillis_eq hdays]

/-- **From 2039 on** the year in the field overflows on the way back. -/
theorem year_msecToRtc {m : Nat} (hm : overflowStart ≤ m) (hlimit : m < yearLimit) :
    2039 ≤ (msecToRtc m).year.toNat := by
  rw [overflowStart] at hm
  rw [yearLimit_eq] at hlimit
  have hyear : (msecToRtc m).year = UInt16.ofNat (dateOf (2 ^ 16) 1970 (m / 1000 / 60 / 60 / 24)).1 := rfl
  generalize hdays : m / 1000 / 60 / 60 / 24 = days at *
  obtain ⟨k, hle, hlt, hpeel⟩ :=
    peel_eq (w := 2 ^ 16) (by decide) (days % 1461) (1970 + 4 * (days / 1461)) (days % 1461) (Nat.le_refl _)
  have hcycle := julianDays_cycle (by omega) (Nat.mod_lt _ (by omega)) hle hlt
  have hq : days / 1461 % 65536 = days / 1461 := Nat.mod_eq_of_lt (by omega)
  have hfield := field_eq (w := 2 ^ 16) (b := 1970) (q := days / 1461) (a := 1970) (by decide)
  have hdate : (dateOf (2 ^ 16) 1970 days).1 = (1970 + 4 * (days / 1461) + k) % 2 ^ 16 := by
    rw [dateOf, hq]
    simp only [hfield, hpeel]
  rw [hyear, hdate]
  show 2039 ≤ (1970 + 4 * (days / 1461) + k) % 2 ^ 16 % 2 ^ 16
  omega

/-- **What comes back**: the milliseconds in front of the year 2039, and the times in front of it. -/
theorem rtc_round_iff {m : Nat} {t : TimeInfo} (hlimit : m < yearLimit) (h : t.Valid) :
    (rtcToMsec (msecToRtc m) = some m ↔ m < overflowStart) ∧
    ((∃ m, rtcToMsec t = some m ∧ msecToRtc m = t) ↔ t.year.toNat ≤ 2038) := by
  constructor
  · constructor
    · intro hback
      by_contra hm
      rw [rtcToMsec_eq_none (year_msecToRtc (Nat.le_of_not_lt hm) hlimit)] at hback
      cases hback
    · intro hm
      obtain ⟨t, rfl, hlate, hrtc⟩ := msecToRtc_eq (m := m) (by rw [yearDays_2100]; exact Nat.lt_trans hm (by decide))
      have hyear : t.date.year ≤ 2038 := by
        by_contra hyear
        have hle := t.le_millis (n := 69) (by omega)
        rw [yearDays_2039] at hle
        exact absurd hm (Nat.not_lt.mpr hle)
      obtain ⟨h, htime⟩ := rtcOf_valid t (by omega)
      have hfield : (rtcOf t).year.toNat = t.date.year := congrArg (fun t => t.date.year) htime
      rw [hrtc, rtcToMsec_eq h (hfield ▸ hyear), htime]
  · constructor
    · rintro ⟨m, hm, -⟩
      by_contra hyear
      rw [rtcToMsec_eq_none (by omega)] at hm
      cases hm
    · intro hyear
      have hlt := h.time.millis_lt (n := 69) (Nat.lt_succ_of_le hyear)
      rw [yearDays_2039] at hlt
      obtain ⟨t', heq, -, hrtc⟩ := msecToRtc_eq (m := h.time.millis)
        (by rw [yearDays_2100]; exact Nat.lt_trans hlt (by decide))
      rw [Time.millis_injective heq] at hrtc
      exact ⟨_, rtcToMsec_eq h hyear, hrtc.trans (rtcOf_time h)⟩

/-- The last second of February 2000. -/
def leapDay : TimeInfo := ⟨2000, 2, 29, 23, 59, 59, 999⟩

theorem rtc_round_demo : rtcToMsec (msecToRtc 951868799999) = some 951868799999 ∧
    ∃ m, rtcToMsec leapDay = some m ∧ msecToRtc m = leapDay :=
  have h : leapDay.Valid :=
    ⟨by decide, by decide, by decide, by decide, by decide, by decide, by decide, by decide, by decide⟩
  have hround := rtc_round_iff (m := 951868799999) (by rw [yearLimit_eq]; decide) h
  ⟨hround.1.mpr (by decide), hround.2.mpr (by decide)⟩

/-- The first millisecond of the year 2039 does not come back. -/
theorem not_rtc_round : overflowStart < yearLimit ∧ rtcToMsec (msecToRtc overflowStart) ≠ some overflowStart := by
  have hlt : overflowStart < yearLimit := by
    rw [yearLimit_eq]
    decide
  rw [rtcToMsec_eq_none (year_msecToRtc (Nat.le_refl _) hlt)]
  exact ⟨hlt, (Option.some_ne_none _).symm⟩

end Wow.System
