import Mathlib.Tactic.Common
import Mathlib.Algebra.Order.Ring.Nat

/-!
# Wow.Lib.Calendar — the Gregorian calendar

Years from 1 on, months from 1 to 12, days from 1 on.  `dayNumber` counts the days from the first of January of an
epoch, `seconds` the seconds of a point in time.

* `yearDays_eq`: the days of a run of years, in closed form.
* `Date`: a date that exists; `dayNumber_injective`: two dates are different days.
* `Time`: a point in time; `millis_injective`: two points in time are different numbers.
-/

namespace Wow.Calendar

/-- Every fourth year, but of the full centuries only every fourth. -/
def isLeap (y : Nat) : Bool := y % 4 = 0 ∧ (y % 100 ≠ 0 ∨ y % 400 = 0)

def daysInYear (y : Nat) : Nat := if isLeap y then 366 else 365

/-- The days in front of a month, by the number of months in front of it. -/
def monthStart (leap : Bool) : Nat → Nat
  | 0 => 0
  | m + 1 => monthStart leap m + match m with
    | 1 => if leap then 29 else 28
    | 3 | 5 | 8 | 10 => 30
    | _ => 31

/-- The days of the month `m`. -/
def daysInMonth (leap : Bool) (m : Nat) : Nat := monthStart leap m - monthStart leap (m - 1)

/-- The days of `n` years from the year `e` on. -/
def yearDays (e : Nat) : Nat → Nat
  | 0 => 0
  | n + 1 => yearDays e n + daysInYear (e + n)

/-- The leap years in front of a year. -/
def leapsBefore (y : Nat) : Nat := (y - 1) / 4 - (y - 1) / 100 + (y - 1) / 400

/-! ### Years -/

theorem leapsBefore_succ {y : Nat} (hy : 1 ≤ y) : leapsBefore (y + 1) = leapsBefore y + if isLeap y then 1 else 0 := by
  obtain ⟨z, rfl⟩ := Nat.exists_eq_add_of_le' hy
  have hle : z / 100 ≤ z / 4 := Nat.div_le_div_left (by decide) (by decide)
  have hcentury : 100 ∣ z + 1 → 4 ∣ z + 1 := Nat.dvd_trans (by decide)
  have hfourth : 400 ∣ z + 1 → 100 ∣ z + 1 := Nat.dvd_trans (by decide)
  simp only [leapsBefore, isLeap, decide_eq_true_eq, Nat.add_sub_cancel, Nat.succ_div, ne_eq, ← Nat.dvd_iff_mod_eq_zero]
  generalize z / 4 = a, z / 100 = b, z / 400 = c at *
  by_cases h4 : 4 ∣ z + 1
  · by_cases h100 : 100 ∣ z + 1
    · by_cases h400 : 400 ∣ z + 1
      · simp only [h4, h100, h400, if_true, or_true, and_self]
        omega
      · simp only [h4, h100, h400, if_true, if_false, not_true_eq_false, or_self, and_false]
        omega
    · have h400 := mt hfourth h100
      simp only [h4, h100, h400, if_true, if_false, not_false_eq_true, true_or, and_self]
      omega
  · have h100 := mt hcentury h4
    have h400 := mt hfourth h100
    simp only [h4, h100, h400, if_false, false_and, Nat.add_zero]

theorem leapsBefore_mono {y n : Nat} (hy : 1 ≤ y) : leapsBefore y ≤ leapsBefore (y + n) := by
  induction n with
  | zero => exact Nat.le_refl _
  | succ n ih =>
    rw [← Nat.add_assoc, leapsBefore_succ (by omega)]
    omega

/-- **The days of a run of years.** -/
theorem yearDays_eq {e : Nat} (he : 1 ≤ e) (n : Nat) :
    yearDays e n = 365 * n + (leapsBefore (e + n) - leapsBefore e) := by
  induction n with
  | zero => simp [yearDays]
  | succ n ih =>
    have hmono := leapsBefore_mono (n := n) he
    rw [yearDays, ih, ← Nat.add_assoc e, leapsBefore_succ (by omega), daysInYear]
    split <;> omega

theorem yearDays_mono {e m n : Nat} (h : m ≤ n) : yearDays e m ≤ yearDays e n := by
  induction h with
  | refl => exact Nat.le_refl _
  | step _ ih => exact Nat.le_trans ih (Nat.le_add_right _ _)

/-! ### Dates -/

theorem monthStart_mono (leap : Bool) {m n : Nat} (h : m ≤ n) : monthStart leap m ≤ monthStart leap n := by
  induction h with
  | refl => exact Nat.le_refl _
  | step _ ih => exact Nat.le_trans ih (Nat.le_add_right _ _)

theorem monthStart_twelve (leap : Bool) : monthStart leap 12 = if leap then 366 else 365 := by
  cases leap <;> rfl

/-- A date that exists, not before the year `epoch`. -/
@[ext] structure Date (epoch : Nat) where
  year : Nat
  mon : Nat
  day : Nat
  epoch_le : epoch ≤ year
  mon_pos : 1 ≤ mon
  mon_le : mon ≤ 12
  day_pos : 1 ≤ day
  day_le : day ≤ daysInMonth (isLeap year) mon

namespace Date

variable {epoch : Nat} (d d' : Date epoch)

/-- The day in its year, from 0 on. -/
def yearDay : Nat := monthStart (isLeap d.year) (d.mon - 1) + (d.day - 1)

/-- The days from the start of the epoch. -/
def dayNumber : Nat := yearDays epoch (d.year - epoch) + d.yearDay

theorem yearDay_lt_monthStart : d.yearDay < monthStart (isLeap d.year) d.mon := by
  have h := d.day_le
  have hpos := d.day_pos
  rw [daysInMonth] at h
  rw [yearDay]
  omega

theorem yearDay_lt : d.yearDay < daysInYear d.year := by
  have h := monthStart_mono (isLeap d.year) d.mon_le
  rw [monthStart_twelve] at h
  exact Nat.lt_of_lt_of_le d.yearDay_lt_monthStart h

variable {d d'}

/-- The days in front of a later year. -/
theorem dayNumber_lt {n : Nat} (h : d.year < epoch + n) : d.dayNumber < yearDays epoch n := by
  have hday := d.yearDay_lt
  have hepoch := d.epoch_le
  have hyears := yearDays_mono (e := epoch) (show d.year - epoch + 1 ≤ n by omega)
  rw [yearDays, show epoch + (d.year - epoch) = d.year by omega] at hyears
  rw [dayNumber]
  omega

theorem le_dayNumber {n : Nat} (h : epoch + n ≤ d.year) : yearDays epoch n ≤ d.dayNumber :=
  Nat.le_trans (yearDays_mono (by omega)) (Nat.le_add_right _ _)

/-- An earlier year. -/
theorem dayNumber_lt_of_year (h : d.year < d'.year) : d.dayNumber < d'.dayNumber := by
  have hepoch := d'.epoch_le
  have hlt := dayNumber_lt (d := d) (n := d'.year - epoch) (by omega)
  exact Nat.lt_of_lt_of_le hlt (le_dayNumber (by omega))

/-- An earlier month of the same year. -/
theorem yearDay_lt_of_mon (hy : d.year = d'.year) (h : d.mon < d'.mon) : d.yearDay < d'.yearDay := by
  have hday := d.yearDay_lt_monthStart
  have hmon := monthStart_mono (isLeap d'.year) (show d.mon ≤ d'.mon - 1 by omega)
  rw [hy] at hday
  rw [yearDay, yearDay] at *
  omega

/-- **Two dates are different days.** -/
theorem dayNumber_injective : Function.Injective (@dayNumber epoch) := by
  intro d d' h
  have hyear : d.year = d'.year := by
    rcases Nat.lt_trichotomy d.year d'.year with hlt | heq | hgt
    · exact absurd h (Nat.ne_of_lt (dayNumber_lt_of_year hlt))
    · exact heq
    · exact absurd h (Nat.ne_of_gt (dayNumber_lt_of_year hgt))
  have hyd : d.yearDay = d'.yearDay := by
    rw [dayNumber, dayNumber, hyear] at h
    omega
  have hmon : d.mon = d'.mon := by
    rcases Nat.lt_trichotomy d.mon d'.mon with hlt | heq | hgt
    · exact absurd hyd (Nat.ne_of_lt (yearDay_lt_of_mon hyear hlt))
    · exact heq
    · exact absurd hyd (Nat.ne_of_gt (yearDay_lt_of_mon hyear.symm hgt))
  have hday : d.day = d'.day := by
    have hpos := d.day_pos
    have hpos' := d'.day_pos
    rw [yearDay, yearDay, hyear, hmon] at hyd
    omega
  exact Date.ext hyear hmon hday

end Date

/-! ### Points in time -/

/-- A point in time, to the millisecond. -/
@[ext] structure Time (epoch : Nat) where
  date : Date epoch
  hour : Nat
  min : Nat
  milli : Nat
  hour_lt : hour < 24
  min_lt : min < 60
  milli_lt : milli < 60000

namespace Time

variable {epoch : Nat}

/-- The milliseconds from the start of the epoch. -/
def millis (t : Time epoch) : Nat := ((t.date.dayNumber * 24 + t.hour) * 60 + t.min) * 60000 + t.milli

/-- The milliseconds in front of a later year. -/
theorem millis_lt {t : Time epoch} {n : Nat} (h : t.date.year < epoch + n) :
    t.millis < 86400000 * yearDays epoch n := by
  have hday := t.date.dayNumber_lt h
  have hhour := t.hour_lt
  have hmin := t.min_lt
  have hmilli := t.milli_lt
  rw [millis]
  omega

theorem le_millis {t : Time epoch} {n : Nat} (h : epoch + n ≤ t.date.year) :
    86400000 * yearDays epoch n ≤ t.millis := by
  have hday := t.date.le_dayNumber h
  rw [millis]
  omega

/-- The last digit of a number, and the others. -/
theorem digit_inj {m a a' b b' : Nat} (hb : b < m) (hb' : b' < m) (h : a * m + b = a' * m + b') : a = a' ∧ b = b' := by
  have hpos : 0 < m := Nat.lt_of_le_of_lt (Nat.zero_le b) hb
  have hdiv := (Nat.div_mod_unique hpos).mpr ⟨Nat.add_comm b (m * a), hb⟩
  have hdiv' := (Nat.div_mod_unique hpos).mpr ⟨Nat.add_comm b' (m * a'), hb'⟩
  rw [Nat.mul_comm a m, Nat.mul_comm a' m] at h
  rw [h] at hdiv
  exact ⟨hdiv.1.symm.trans hdiv'.1, hdiv.2.symm.trans hdiv'.2⟩

/-- **Two points in time are different numbers.** -/
theorem millis_injective : Function.Injective (@millis epoch) := by
  intro t t' h
  rw [millis, millis] at h
  obtain ⟨h, hmilli⟩ := digit_inj t.milli_lt t'.milli_lt h
  obtain ⟨h, hmin⟩ := digit_inj t.min_lt t'.min_lt h
  obtain ⟨h, hhour⟩ := digit_inj t.hour_lt t'.hour_lt h
  exact Time.ext (Date.dayNumber_injective h) hhour hmin hmilli

end Time

end Wow.Calendar
