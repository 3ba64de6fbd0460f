import Wow.Lib.Calendar
import Wow.System.Time

/-!
# Wow.System.TimeRound — dates there and back

* `dateSec_eq`: the way back counts the seconds of the calendar, up to the year 2038, and overflows from 2039 on.
* `dateOf_eq`: the way there finds the date of a day, up to the year 2099.
-/

namespace Wow.System

open Calendar

theorem rtcDataLeap_eq (year : Nat) : rtcDataLeap year = isLeap year := rfl

theorem gsMonDays_eq (leap : Bool) {i : Nat} (hi : i < 12) : (gsMonDays leap)[i]? = some (monthStart leap i) := by
  revert i
  cases leap <;> decide

theorem monDays_eq (d : Date 1970) : monDays (isLeap d.year) d.mon = some (monthStart (isLeap d.year) (d.mon - 1)) := by
  have hpos := d.mon_pos
  have hle := d.mon_le
  rw [monDays, if_neg (by omega), gsMonDays_eq _ (by omega)]

/-! ### The way back -/

theorem mulInt_of_le {m n : Int} (h : 0 ≤ m * n) (hle : m * n ≤ 2147483647) : mulInt m n = some (m * n) :=
  if_pos ⟨by omega, hle⟩

/-- **The product of the years** leaves `int` from 2039 on. -/
theorem yearsSec_eq {year : Nat} (h : 1970 ≤ year) (hlt : year < 65536) :
    yearsSec year = if year ≤ 2038 then some (((year - 1970) * 31536000 : Nat) : Int) else none := by
  obtain ⟨n, rfl⟩ := Nat.exists_eq_add_of_le h
  have hn : ((1970 + n : Nat) : Int) - 1970 = n := by omega
  rw [yearsSec, hn, mulInt_of_le (by omega) (by omega), Nat.add_sub_cancel_left]
  simp only [Option.bind_eq_bind, Option.bind_some]
  rw [mulInt_of_le (by omega) (by omega), Option.bind_some, mulInt]
  by_cases hle : 1970 + n ≤ 2038
  · rw [if_pos hle, if_pos (by omega)]
    exact congrArg some (by omega)
  · rw [if_neg hle, if_neg (by omega)]

/-- The days of the leap years in a run of years. -/
theorem addLeaps_eq (n msec : Nat) (h : msec + 86400 * n < 2 ^ 64) :
    addLeaps (1970 + n) msec = msec + 86400 * (yearDays 1970 n - 365 * n) ∧ 365 * n ≤ yearDays 1970 n ∧
      yearDays 1970 n ≤ 366 * n := by
  rw [addLeaps, Nat.add_sub_cancel_left]
  induction n with
  | zero =>
    rw [List.range'_zero, List.foldl_nil, yearDays]
    omega
  | succ n ih =>
    rw [Nat.mul_succ, ← Nat.add_assoc] at h
    obtain ⟨hsum, hge, hle⟩ := ih (by omega)
    rw [List.range'_1_concat, List.foldl_append, hsum, yearDays, daysInYear]
    clear hsum ih
    rw [List.foldl_cons, List.foldl_nil]
    by_cases hleap : isLeap (1970 + n) = true
    · have hday : (24 * 3600 : Int) = (86400 : Nat) := rfl
      rw [if_pos hleap, if_pos (show rtcDataLeap (1970 + n) = true from hleap), hday, asSize_add (by omega)]
      omega
    · rw [if_neg hleap, if_neg (show ¬ rtcDataLeap (1970 + n) = true from hleap)]
      omega

/-- **The seconds of a date.** -/
theorem dateSec_eq (d : Date 1970) (hlt : d.year < 65536) {field time : Nat}
    (hfield : isLeap field = isLeap d.year) (htime : time < 86400) :
    dateSec d.year field d.mon d.day time = if d.year ≤ 2038 then some (86400 * d.dayNumber + time) else none := by
  obtain ⟨n, hn⟩ := Nat.exists_eq_add_of_le d.epoch_le
  have hday := d.day_pos
  have hyd := d.yearDay_lt
  rw [dateSec, yearsSec_eq d.epoch_le hlt, rtcDataLeap_eq, hfield, monDays_eq]
  by_cases hle : d.year ≤ 2038
  · simp only [if_pos hle, Option.bind_eq_bind, Option.bind_some]
    have hsub : d.year - 1970 = n := by omega
    obtain ⟨hleaps, hge, hle'⟩ := addLeaps_eq n (31536000 * n) (by omega)
    rw [Date.yearDay, daysInYear] at hyd
    have hyears : addLeaps d.year (asSize (((d.year - 1970) * 31536000 : Nat) : Int)) = 86400 * yearDays 1970 n := by
      rw [hsub, hn, Nat.mul_comm n, asSize_natCast (by omega), hleaps]
      omega
    have hmon :
        monthStart (isLeap d.year) (d.mon - 1) * 24 * 3600 = 86400 * monthStart (isLeap d.year) (d.mon - 1) := by
      rw [Nat.mul_assoc, Nat.mul_comm]
    have hdays : ((d.day : Int) - 1) * 24 * 3600 = (86400 * (d.day - 1) : Nat) := by
      rw [Int.natCast_mul, Int.natCast_sub hday, mul_assoc, mul_comm]
      rfl
    rw [hyears, hmon, hdays, Date.dayNumber, Date.yearDay, hsub]
    generalize monthStart (isLeap d.year) (d.mon - 1) = start at *
    generalize d.day - 1 = day at *
    have hbound : yearDays 1970 n + (start + day) < 366 * 70 := by
      split at hyd <;> omega
    clear hleaps hyears hmon hdays
    rw [asSize_add (show 86400 * yearDays 1970 n + 86400 * start < 2 ^ 64 by omega),
      asSize_add (show 86400 * yearDays 1970 n + 86400 * start + 86400 * day < 2 ^ 64 by omega), asSize_add (by omega)]
    exact congrArg some (by omega)
  · simp only [if_neg hle, Option.bind_eq_bind, Option.bind_none]

/-! ### The way there -/

/-- The days of `k` years from the year `y` on, where every fourth year is a leap year. -/
def julianDays (y : Nat) : Nat → Nat
  | 0 => 0
  | k + 1 => julianDays y k + if (y + k) % 4 = 0 then 366 else 365

theorem julianDays_succ (y k : Nat) :
    julianDays y (k + 1) = (if y % 4 = 0 then 366 else 365) + julianDays (y + 1) k := by
  induction k with
  | zero => rw [julianDays, julianDays, julianDays, Nat.add_zero, Nat.zero_add, Nat.add_zero]
  | succ k ih => rw [julianDays, ih, julianDays, Nat.add_assoc, show y + (k + 1) = y + 1 + k by omega]

/-- **The loop** comes to the year that the day lies in. -/
theorem peel_eq {w : Nat} (hw : 4 ∣ w) (fuel year days : Nat) (hfuel : days ≤ fuel) :
    ∃ k, julianDays year k ≤ days ∧ days < julianDays year (k + 1) ∧
      peel w fuel (year % w) days = ((year + k) % w, days - julianDays year k) := by
  induction fuel generalizing year days with
  | zero =>
    obtain rfl := Nat.le_zero.mp hfuel
    refine ⟨0, Nat.le_refl _, ?_, rfl⟩
    rw [julianDays_succ]
    split <;> omega
  | succ fuel ih =>
    have hmod : year % w % 4 = year % 4 := Nat.mod_mod_of_dvd year hw
    have hlong : 365 ≤ if year % 4 = 0 then 366 else 365 := by split <;> omega
    rw [peel, hmod]
    by_cases hlt : days < if year % 4 = 0 then 366 else 365
    · refine ⟨0, Nat.zero_le _, ?_, ?_⟩
      · rw [julianDays_succ]
        exact Nat.lt_of_lt_of_le hlt (Nat.le_add_right _ _)
      · simp only [if_pos hlt, julianDays, Nat.add_zero, Nat.sub_zero]
    · obtain ⟨k, hle, hlt', hpeel⟩ := ih (year + 1) (days - if year % 4 = 0 then 366 else 365) (by omega)
      refine ⟨k + 1, ?_, ?_, ?_⟩
      · rw [julianDays_succ]
        omega
      · rw [julianDays_succ]
        omega
      · simp only [if_neg hlt, Nat.mod_add_mod]
        rw [hpeel, julianDays_succ, show year + 1 + k = year + (k + 1) by omega, Nat.sub_sub]

/-- **The month** that a day of the year lies in. -/
theorem monthOf_spec (leap : Bool) {day : Nat} (hpos : 0 < day) : ∀ i, i ≤ 12 → day ≤ monthStart leap i →
    ∃ mon d, monthOf leap day i = (mon, d) ∧ 1 ≤ mon ∧ mon ≤ i ∧ 1 ≤ d ∧ d ≤ daysInMonth leap mon ∧
      monthStart leap (mon - 1) + d = day
  | 0, _, hle => absurd hpos (Nat.not_lt.mpr hle)
  | i + 1, hi, hle => by
    have hget : (gsMonDays leap).getD i 0 = monthStart leap i := by
      rw [List.getD_eq_getElem?_getD, gsMonDays_eq leap (by omega), Option.getD_some]
    rw [monthOf, hget]
    by_cases hlt : monthStart leap i < day
    · rw [if_pos hlt]
      refine ⟨i + 1, _, rfl, by omega, Nat.le_refl _, by omega, ?_, ?_⟩
      · rw [daysInMonth, Nat.add_sub_cancel]
        omega
      · rw [Nat.add_sub_cancel]
        omega
    · obtain ⟨mon, d, hmon, h1, h2, h3⟩ := monthOf_spec leap hpos i (by omega) (by omega)
      rw [if_neg hlt]
      exact ⟨mon, d, hmon, h1, by omega, h3⟩

theorem julianDays_mono {y m n : Nat} (h : m ≤ n) : julianDays y m ≤ julianDays y n := by
  induction h with
  | refl => exact Nat.le_refl _
  | step _ ih => exact Nat.le_trans ih (Nat.le_add_right _ _)

/-- The years of a cycle that begins two years in front of a leap year. -/
theorem julianDays_cycle {y k days : Nat} (hy : y % 4 = 2) (hdays : days < 1461) (hle : julianDays y k ≤ days)
    (hlt : days < julianDays y (k + 1)) :
    k = 0 ∧ julianDays y k = 0 ∧ days < 365 ∨ k = 1 ∧ julianDays y k = 365 ∧ days < 730 ∨
      k = 2 ∧ julianDays y k = 730 ∧ days < 1096 ∨ k = 3 ∧ julianDays y k = 1096 := by
  have h1 : julianDays y 1 = 365 := by
    rw [julianDays, julianDays, if_neg (by omega)]
  have h2 : julianDays y 2 = 730 := by
    rw [julianDays, h1, if_neg (by omega)]
  have h3 : julianDays y 3 = 1096 := by
    rw [julianDays, h2, if_pos (by omega)]
  have h4 : julianDays y 4 = 1461 := by
    rw [julianDays, h3, if_neg (by omega)]
  match k with
  | 0 => exact Or.inl ⟨rfl, rfl, Nat.lt_of_lt_of_eq hlt h1⟩
  | 1 => exact Or.inr (Or.inl ⟨rfl, h1, Nat.lt_of_lt_of_eq hlt h2⟩)
  | 2 => exact Or.inr (Or.inr (Or.inl ⟨rfl, h2, Nat.lt_of_lt_of_eq hlt h3⟩))
  | 3 => exact Or.inr (Or.inr (Or.inr ⟨rfl, h3⟩))
  | k + 4 =>
    have hmono := julianDays_mono (y := y) (show 4 ≤ k + 4 by omega)
    omega

/-- Up to 2099 every fourth year is a leap year. -/
theorem isLeap_of_le {y : Nat} (h : 1901 ≤ y) (hle : y ≤ 2099) : isLeap y = decide (y % 4 = 0) := by
  rw [isLeap, decide_eq_decide]
  omega

/-- The year in its field, at the start of a cycle. -/
theorem field_eq {w b q : Nat} {a : Int} (hbase : (a - b) % w = 0) :
    (((q : Int) * 4 + a) % w).toNat = (b + 4 * q) % w := by
  obtain ⟨c, hc⟩ := Int.dvd_of_emod_eq_zero hbase
  have hsum : (q : Int) * 4 + a = ((b + 4 * q : Nat) : Int) + w * c := by
    rw [← hc, Int.natCast_add, Int.natCast_mul]
    omega
  rw [hsum, Int.add_mul_emod_self_left, ← Int.natCast_emod, Int.toNat_natCast]

/-- The days in front of the year 2039, where the way back overflows. -/
theorem yearDays_2039 : yearDays 1970 69 = 25202 := by
  rw [yearDays_eq (by omega)]
  rfl

/-- The days in front of the year 2100, which is no leap year. -/
theorem yearDays_2100 : yearDays 1970 130 = 47482 := by
  rw [yearDays_eq (by omega)]
  rfl

/-- **The date of a day**, up to the year 2099; the year goes into a field with the values below `w`. -/
theorem dateOf_eq {w b : Nat} {a : Int} (hw : 4 ∣ w) (hb : b % 4 = 2) (hbase : (a - b) % w = 0) {days : Nat}
    (h : days < yearDays 1970 130) :
    ∃ d : Date 1970, d.dayNumber = days ∧ d.year < 2100 ∧
      dateOf w a days = ((b + (d.year - 1970)) % w, d.mon, d.day) := by
  rw [yearDays_2100] at h
  have hq : days / 1461 % 65536 = days / 1461 := Nat.mod_eq_of_lt (by omega)
  obtain ⟨k, hle, hlt, hpeel⟩ := peel_eq hw (days % 1461) (b + 4 * (days / 1461)) (days % 1461) (Nat.le_refl _)
  have hcycle := julianDays_cycle (by omega) (Nat.mod_lt _ (by omega)) hle hlt
  have hyears : yearDays 1970 (4 * (days / 1461) + k) + (days % 1461 - julianDays (b + 4 * (days / 1461)) k) = days := by
    rw [yearDays_eq (by omega), leapsBefore, leapsBefore]
    omega
  generalize hy : 1970 + (4 * (days / 1461) + k) = year at *
  have hleap : decide ((b + 4 * (days / 1461) + k) % w % 4 = 0) = isLeap year := by
    rw [isLeap_of_le (by omega) (by omega), decide_eq_decide, Nat.mod_mod_of_dvd _ hw]
    omega
  have hday : days % 1461 - julianDays (b + 4 * (days / 1461)) k + 1 ≤ monthStart (isLeap year) 12 := by
    rw [monthStart_twelve, isLeap_of_le (by omega) (by omega)]
    simp only [decide_eq_true_eq]
    split <;> omega
  obtain ⟨mon, day, hmon, hmon1, hmon2, hday1, hday2, hsum⟩ :=
    monthOf_spec (isLeap year) (Nat.succ_pos _) 12 (Nat.le_refl _) hday
  refine ⟨⟨year, mon, day, by omega, hmon1, hmon2, hday1, hday2⟩, ?_, by simp only; omega, ?_⟩
  · rw [Date.dayNumber, Date.yearDay]
    simp only
    rw [show year - 1970 = 4 * (days / 1461) + k by omega]
    omega
  · have hfield := field_eq (q := days / 1461) hbase
    rw [dateOf, hq]
    simp only [hfield, hpeel, hleap, hmon]
    rw [show b + (year - 1970) = b + 4 * (days / 1461) + k by omega]

end Wow.System
