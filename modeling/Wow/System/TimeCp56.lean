import Wow.System.TimeRtc

/-!
# Wow.System.TimeCp56 — the time tag there and back

* `CP56Time2a.Valid`: the points in time from 2000 to 2099 that a tag can hold, as one of the calendar.
* `cp56ToMsec_eq`, `msecToCp56_eq`: both ways in terms of the calendar.
* `cp56_round_iff`: what comes back is what lies in front of the year 2039, without the fields beside the time.
-/

namespace Wow.System

open Calendar

namespace CP56Time2a

/-- The millisecond of the minute. -/
def milli (t : CP56Time2a) : Nat := t.milliSecH.toNat * 256 + t.milliSecL.toNat

/-- A point in time from 2000 to 2099. -/
structure Valid (t : CP56Time2a) : Prop where
  year : t.year.toNat ≤ 99
  mon_pos : 1 ≤ t.mon.toNat
  mon_le : t.mon.toNat ≤ 12
  day_pos : 1 ≤ t.monDay.toNat
  day_le : t.monDay.toNat ≤ daysInMonth (isLeap (t.year.toNat + 2000)) t.mon.toNat
  hour : t.hour.toNat < 24
  min : t.min.toNat < 60
  milli : t.milli < 60000

/-- The point in time of the calendar. -/
def Valid.time {t : CP56Time2a} (h : t.Valid) : Time 1970 where
  date := ⟨t.year.toNat + 2000, t.mon.toNat, t.monDay.toNat, by omega, h.mon_pos, h.mon_le, h.day_pos, h.day_le⟩
  hour := t.hour.toNat
  min := t.min.toNat
  milli := t.milli
  hour_lt := h.hour
  min_lt := h.min
  milli_lt := h.milli

/-- The fields beside the time are zero: the day of the week, summer time, invalidity and what is reserved. -/
def Bare (t : CP56Time2a) : Prop :=
  t.weekDay = 0 ∧ t.su = 0 ∧ t.iv = 0 ∧ t.resv1 = 0 ∧ t.resv2 = 0 ∧ t.resv3 = 0 ∧ t.resv4 = 0

/-- The fields of the time are the same. -/
def SameTime (t t' : CP56Time2a) : Prop :=
  t.year = t'.year ∧ t.mon = t'.mon ∧ t.monDay = t'.monDay ∧ t.hour = t'.hour ∧ t.min = t'.min ∧
    t.milliSecH = t'.milliSecH ∧ t.milliSecL = t'.milliSecL

instance (t : CP56Time2a) : Decidable t.Bare := inferInstanceAs (Decidable (_ ∧ _))

end CP56Time2a

open CP56Time2a

/-- A point in time of the calendar, as a tag. -/
def cp56Of (t : Time 1970) : CP56Time2a where
  milliSecL := UInt8.ofNat t.milli
  milliSecH := UInt8.ofNat (t.milli / 2 ^ 8)
  min := BitVec.ofNat 6 t.min
  resv1 := 0
  iv := 0
  hour := BitVec.ofNat 5 t.hour
  resv2 := 0
  su := 0
  monDay := BitVec.ofNat 5 t.date.day
  weekDay := 0
  mon := BitVec.ofNat 4 t.date.mon
  resv3 := 0
  year := BitVec.ofNat 7 (t.date.year - 2000)
  resv4 := 0

theorem bare_cp56Of (t : Time 1970) : (cp56Of t).Bare := ⟨rfl, rfl, rfl, rfl, rfl, rfl, rfl⟩

/-- **The fields hold** a point in time of these years. -/
theorem cp56Of_valid (t : Time 1970) (hge : 2000 ≤ t.date.year) (hlt : t.date.year < 2100) :
    ∃ h : (cp56Of t).Valid, h.time = t := by
  have hmonth := daysInMonth_le (isLeap t.date.year) t.date.mon_le
  have hday := t.date.day_le
  have hmon := t.date.mon_le
  have hhour := t.hour_lt
  have hmin := t.min_lt
  have hmilli := t.milli_lt
  have eyear : (cp56Of t).year.toNat = t.date.year - 2000 :=
    Nat.mod_eq_of_lt (show t.date.year - 2000 < 128 by omega)
  have emon : (cp56Of t).mon.toNat = t.date.mon := Nat.mod_eq_of_lt (show t.date.mon < 16 by omega)
  have eday : (cp56Of t).monDay.toNat = t.date.day := Nat.mod_eq_of_lt (show t.date.day < 32 by omega)
  have ehour : (cp56Of t).hour.toNat = t.hour := Nat.mod_eq_of_lt (show t.hour < 32 by omega)
  have emin : (cp56Of t).min.toNat = t.min := Nat.mod_eq_of_lt (show t.min < 64 by omega)
  have emilli : (cp56Of t).milli = t.milli := by
    show t.milli / 2 ^ 8 % 2 ^ 8 * 256 + t.milli % 2 ^ 8 = t.milli
    omega
  have eyear' : (cp56Of t).year.toNat + 2000 = t.date.year := by omega
  have hvalid : (cp56Of t).Valid :=
    ⟨by omega, emon ▸ t.date.mon_pos, emon ▸ hmon, eday ▸ t.date.day_pos, by rw [eday, eyear', emon]; exact hday,
      ehour ▸ hhour, emin ▸ hmin, emilli ▸ hmilli⟩
  exact ⟨hvalid, Time.ext (Date.ext eyear' emon eday) ehour emin emilli⟩

/-- A valid tag is the time that it is of the calendar. -/
theorem cp56Of_time {t : CP56Time2a} (h : t.Valid) : (cp56Of h.time).SameTime t := by
  have hl := t.milliSecL.toNat_lt
  have hhigh : t.milli / 2 ^ 8 = t.milliSecH.toNat := by
    rw [milli]
    omega
  have hlow : UInt8.ofNat t.milli = t.milliSecL := by
    refine UInt8.toNat_inj.mp ?_
    show t.milli % 2 ^ 8 = t.milliSecL.toNat
    rw [milli]
    omega
  have hyear : t.year.toNat + 2000 - 2000 = t.year.toNat := Nat.add_sub_cancel _ _
  refine ⟨?_, BitVec.ofNat_toNat _ _, BitVec.ofNat_toNat _ _, BitVec.ofNat_toNat _ _, BitVec.ofNat_toNat _ _, ?_, hlow⟩
  · exact (congrArg (BitVec.ofNat 7) hyear).trans (BitVec.ofNat_toNat _ _)
  · exact (congrArg UInt8.ofNat hhigh).trans UInt8.ofNat_toNat

/-- Two tags of the same time, with zeros beside it. -/
theorem eq_of_sameTime {t t' : CP56Time2a} (h : t.SameTime t') (hb : t.Bare) (hb' : t'.Bare) : t = t' := by
  obtain ⟨h1, h2, h3, h4, h5, h6, h7⟩ := h
  obtain ⟨b1, b2, b3, b4, b5, b6, b7⟩ := hb
  obtain ⟨c1, c2, c3, c4, c5, c6, c7⟩ := hb'
  exact CP56Time2a.ext h7 h6 h5 (b4.trans c4.symm) (b3.trans c3.symm) h4 (b5.trans c5.symm) (b2.trans c2.symm) h3
    (b1.trans c1.symm) h2 (b6.trans c6.symm) h1 (b7.trans c7.symm)

/-! ### Both ways -/

/-- A year that overflows. -/
theorem cp56ToMsec_eq_none {t : CP56Time2a} (h : 39 ≤ t.year.toNat) : cp56ToMsec t = none := by
  have hlt := t.year.isLt
  rw [cp56ToMsec, dateSec, yearsSec_eq (by omega) (by omega), if_neg (by omega)]
  rfl

/-- The leap years are those of the years of the century. -/
theorem isLeap_century {y : Nat} (h : y ≤ 99) : isLeap y = isLeap (y + 2000) := by
  rw [isLeap, isLeap, decide_eq_decide]
  omega

/-- **The way back**, up to the year 2038. -/
theorem cp56ToMsec_eq {t : CP56Time2a} (h : t.Valid) (hle : t.year.toNat ≤ 38) : cp56ToMsec t = some h.time.millis := by
  have hhour := h.hour
  have hmin := h.min
  have hmilli := h.milli
  have hday := h.time.date.dayNumber_lt (n := 69) (show t.year.toNat + 2000 < 1970 + 69 by omega)
  rw [yearDays_2039] at hday
  have hdate : dateSec (t.year.toNat + 2000) t.year.toNat t.mon.toNat t.monDay.toNat
      (t.hour.toNat * 3600 + t.min.toNat * 60) =
      if t.year.toNat + 2000 ≤ 2038 then some (86400 * h.time.date.dayNumber +
        (t.hour.toNat * 3600 + t.min.toNat * 60)) else none :=
    dateSec_eq h.time.date (show t.year.toNat + 2000 < 65536 by omega) (isLeap_century h.year) (by omega)
  have hmillis : h.time.millis = ((h.time.date.dayNumber * 24 + t.hour.toNat) * 60 + t.min.toNat) * 60000 + t.milli := rfl
  rw [cp56ToMsec, hdate, if_pos (by omega), hmillis]
  generalize h.time.date.dayNumber = n at *
  simp only [Option.bind_eq_bind, Option.bind_some]
  have hcast : (((86400 * n + (t.hour.toNat * 3600 + t.min.toNat * 60) : Nat) : Int) * 1000 + t.milliSecH.toNat * 256 +
      t.milliSecL.toNat) = (((n * 24 + t.hour.toNat) * 60 + t.min.toNat) * 60000 + t.milli : Nat) := by
    rw [milli]
    omega
  rw [hcast, asSize_natCast (by omega)]

/-- The first millisecond of the year 2000. -/
def centuryStart : Nat := 946684800000

theorem yearDays_2000 : yearDays 1970 30 = 10957 := by
  rw [yearDays_eq (by omega)]
  rfl

/-- **The way there**, from 2000 to 2099. -/
theorem msecToCp56_eq {m : Nat} (hge : centuryStart ≤ m) (hm : m < 86400000 * yearDays 1970 130) :
    ∃ t : Time 1970, t.millis = m ∧ 2000 ≤ t.date.year ∧ t.date.year < 2100 ∧ msecToCp56 m = cp56Of t := by
  have hdays : m / 60000 / 60 / 24 < yearDays 1970 130 := by
    omega
  obtain ⟨d, hd, hlt, hdate⟩ :=
    dateOf_eq (w := 2 ^ 7) (b := 98) (a := 1970 - 2000) (by decide) (by decide) (by decide) hdays
  have hyear : 2000 ≤ d.year := by
    by_contra hyear
    have hbefore := d.dayNumber_lt (n := 30) (by omega)
    rw [centuryStart] at hge
    rw [yearDays_2000] at hbefore
    omega
  have hfield : (98 + (d.year - 1970)) % 2 ^ 7 = d.year - 2000 := by
    omega
  refine ⟨⟨d, m / 60000 / 60 % 24, m / 60000 % 60, m % 60000, by omega, by omega, by omega⟩, ?_, hyear, hlt, ?_⟩
  · rw [Time.millis]
    simp only [hd]
    omega
  · rw [hfield] at hdate
    rw [msecToCp56]
    simp only [hdate, cp56Of]

/-- **From 2039 on** the year overflows on the way back. -/
theorem cp56ToMsec_msecToCp56_none {m : Nat} (hm : overflowStart ≤ m) (hlt : m < 86400000 * yearDays 1970 130) :
    cp56ToMsec (msecToCp56 m) = none := by
  obtain ⟨t, rfl, hge, hlate, hcp56⟩ := msecToCp56_eq (Nat.le_trans (by decide) hm) hlt
  have hyear : 2039 ≤ t.date.year := by
    by_contra hyear
    have hbefore := t.millis_lt (n := 69) (by omega)
    rw [yearDays_2039] at hbefore
    exact absurd hbefore (Nat.not_lt.mpr hm)
  obtain ⟨h, htime⟩ := cp56Of_valid t hge hlate
  have hfield : (cp56Of t).year.toNat + 2000 = t.date.year := congrArg (fun t => t.date.year) htime
  rw [hcp56]
  exact cp56ToMsec_eq_none (by omega)

/-- In front of 2039 the milliseconds come back. -/
theorem cp56ToMsec_msecToCp56 {m : Nat} (hge : centuryStart ≤ m) (hm : m < overflowStart) :
    cp56ToMsec (msecToCp56 m) = some m := by
  obtain ⟨t, rfl, h2000, hlate, hcp56⟩ := msecToCp56_eq hge (by rw [yearDays_2100]; exact Nat.lt_trans hm (by decide))
  have hyear : t.date.year ≤ 2038 := by
    by_contra hyear
    have hle := t.le_millis (n := 69) (by omega)
    rw [yearDays_2039] at hle
    exact absurd hm (Nat.not_lt.mpr hle)
  obtain ⟨h, htime⟩ := cp56Of_valid t h2000 hlate
  have hfield : (cp56Of t).year.toNat + 2000 = t.date.year := congrArg (fun t => t.date.year) htime
  rw [hcp56, cp56ToMsec_eq h (by omega), htime]

/-- In front of 2039 a tag comes back, with zeros beside its time. -/
theorem msecToCp56_cp56ToMsec {t : CP56Time2a} (h : t.Valid) (hle : t.year.toNat ≤ 38) :
    ∃ m, cp56ToMsec t = some m ∧ (msecToCp56 m).SameTime t ∧ (msecToCp56 m).Bare := by
  have hlt := h.time.millis_lt (n := 69) (show t.year.toNat + 2000 < 1970 + 69 by omega)
  have hge := h.time.le_millis (n := 30) (show 1970 + 30 ≤ t.year.toNat + 2000 by omega)
  rw [yearDays_2039] at hlt
  rw [yearDays_2000] at hge
  obtain ⟨t', heq, -, -, hcp56⟩ := msecToCp56_eq (m := h.time.millis) hge
    (by rw [yearDays_2100]; exact Nat.lt_trans hlt (by decide))
  rw [Time.millis_injective heq] at hcp56
  refine ⟨_, cp56ToMsec_eq h hle, ?_, ?_⟩
  · rw [hcp56]
    exact cp56Of_time h
  · rw [hcp56]
    exact bare_cp56Of _

/-- **What comes back** of the years from 2000 to 2099: the milliseconds in front of the year 2039, the time of the tags
in front of it, and the whole tag when the fields beside the time are zero. -/
theorem cp56_round_iff {m : Nat} {t : CP56Time2a} (hge : centuryStart ≤ m) (hlt : m < 86400000 * yearDays 1970 130)
    (h : t.Valid) :
    (cp56ToMsec (msecToCp56 m) = some m ↔ m < overflowStart) ∧
    ((∃ m, cp56ToMsec t = some m ∧ (msecToCp56 m).SameTime t) ↔ t.year.toNat ≤ 38) ∧
    ((∃ m, cp56ToMsec t = some m ∧ msecToCp56 m = t) ↔ t.year.toNat ≤ 38 ∧ t.Bare) := by
  refine ⟨?_, ?_, ?_⟩
  · constructor
    · intro hback
      by_contra hm
      rw [cp56ToMsec_msecToCp56_none (Nat.le_of_not_lt hm) hlt] at hback
      cases hback
    · intro hm
      exact cp56ToMsec_msecToCp56 hge hm
  · constructor
    · rintro ⟨m, hm, -⟩
      by_contra hyear
      rw [cp56ToMsec_eq_none (by omega)] at hm
      cases hm
    · intro hle
      obtain ⟨m, hm, hsame, -⟩ := msecToCp56_cp56ToMsec h hle
      exact ⟨m, hm, hsame⟩
  · constructor
    · rintro ⟨m, hm, hback⟩
      have hle : t.year.toNat ≤ 38 := by
        by_contra hyear
        rw [cp56ToMsec_eq_none (by omega)] at hm
        cases hm
      obtain ⟨m', hm', -, hbare⟩ := msecToCp56_cp56ToMsec h hle
      obtain rfl := Option.some.inj (hm.symm.trans hm')
      exact ⟨hle, hback ▸ hbare⟩
    · rintro ⟨hle, hbare⟩
      obtain ⟨m, hm, hsame, hbare'⟩ := msecToCp56_cp56ToMsec h hle
      exact ⟨m, hm, eq_of_sameTime hsame hbare' hbare⟩

/-- The last minute of February 2000. -/
def leapTag : CP56Time2a := ⟨0x5f, 0xea, 59, 0, 0, 23, 0, 0, 29, 0, 2, 0, 0, 0⟩

/-- The same, of a summer time and a known day of the week. -/
def markedTag : CP56Time2a := { leapTag with su := 1, weekDay := 2 }

theorem cp56_round_demo : cp56ToMsec (msecToCp56 951868799999) = some 951868799999 ∧
    (∃ m, cp56ToMsec leapTag = some m ∧ msecToCp56 m = leapTag) ∧
    ∃ m, cp56ToMsec markedTag = some m ∧ (msecToCp56 m).SameTime markedTag :=
  have hlt : 951868799999 < 86400000 * yearDays 1970 130 := by
    rw [yearDays_2100]
    decide
  have h : leapTag.Valid := ⟨by decide, by decide, by decide, by decide, by decide, by decide, by decide, by decide⟩
  have h' : markedTag.Valid := ⟨h.year, h.mon_pos, h.mon_le, h.day_pos, h.day_le, h.hour, h.min, h.milli⟩
  have hround := cp56_round_iff (by decide) hlt h
  ⟨hround.1.mpr (by decide), hround.2.2.mpr (by decide), (cp56_round_iff (by decide) hlt h').2.1.mpr (by decide)⟩

/-- The first millisecond of the year 2039 does not come back. -/
theorem not_cp56_round : centuryStart ≤ overflowStart ∧ overflowStart < 86400000 * yearDays 1970 130 ∧
    cp56ToMsec (msecToCp56 overflowStart) ≠ some overflowStart := by
  have hlt : overflowStart < 86400000 * yearDays 1970 130 := by
    rw [yearDays_2100]
    decide
  rw [cp56ToMsec_msecToCp56_none (Nat.le_refl _) hlt]
  exact ⟨by decide, hlt, (Option.some_ne_none _).symm⟩

end Wow.System
