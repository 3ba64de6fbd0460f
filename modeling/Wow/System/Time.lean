import Mathlib.Data.BitVec
import Wow.Lib.CNum

/-!
# Wow.System.Time — the calendar functions of `wow_time.c`

The broken-down time of `TimeInfo_T` and the time tag `CP56Time2a_T` of the protocols, each to and from milliseconds
since 1970.  The two ways there take the days apart in the same way (`dateOf`), with a year of sixteen or of seven bits;
the two ways back add the same up (`dateSec`).  A product that leaves `int` is `none`, and so is a month outside the
table.
-/

namespace Wow.System

/-- `TimeInfo_T`. -/
@[ext] structure TimeInfo where
  year : UInt16
  mon : UInt8
  day : UInt8
  hour : UInt8
  min : UInt8
  sec : UInt8
  msec : UInt16
deriving DecidableEq

/-- `CP56Time2a_T`. -/
@[ext] structure CP56Time2a where
  milliSecL : UInt8
  milliSecH : UInt8
  min : BitVec 6
  resv1 : BitVec 1
  iv : BitVec 1
  hour : BitVec 5
  resv2 : BitVec 2
  su : BitVec 1
  monDay : BitVec 5
  weekDay : BitVec 3
  mon : BitVec 4
  resv3 : BitVec 4
  year : BitVec 7
  resv4 : BitVec 1
deriving DecidableEq

/-- `gs_mon_days`. -/
def gsMonDays (leap : Bool) : List Nat :=
  if leap then [0, 31, 60, 91, 121, 152, 182, 213, 244, 274, 305, 335]
  else [0, 31, 59, 90, 120, 151, 181, 212, 243, 273, 304, 334]

/-- `rtc_data_leap`. -/
def rtcDataLeap (year : Nat) : Bool := year % 4 = 0 ∧ (year % 100 ≠ 0 ∨ year % 400 = 0)

/-! ### From milliseconds -/

/-- The loop that takes the years of a cycle of four off the days; the year has the values below `w`.  Each turn takes
days away, so that `days` turns are enough. -/
def peel (w : Nat) : Nat → Nat → Nat → Nat × Nat
  | 0, year, days => (year, days)
  | fuel + 1, year, days =>
    let n := if year % 4 = 0 then 366 else 365
    if days < n then (year, days) else peel w fuel ((year + 1) % w) (days - n)

/-- The loop from December down to the first month that begins before the day `day` of the year, counted from 1. -/
def monthOf (leap : Bool) (day : Nat) : Nat → Nat × Nat
  | 0 => (0, 0)
  | i + 1 => if (gsMonDays leap).getD i 0 < day then (i + 1, day - (gsMonDays leap).getD i 0) else monthOf leap day i

/-- The year in a field with the values below `w`, counted from the one with the number `base` at 1970, the month and the
day. -/
def dateOf (w : Nat) (base : Int) (days : Nat) : Nat × Nat × Nat :=
  let year := (((days / 1461 % 65536 : Nat) * 4 + base) % w).toNat
  let r := peel w (days % 1461) year (days % 1461)
  (r.1, monthOf (r.1 % 4 = 0) (r.2 + 1) 12)

/-- `wow_time_msec_to_rtc`. -/
def msecToRtc (nMsec : Nat) : TimeInfo :=
  let secTime := nMsec / 1000
  let (year, mon, day) := dateOf (2 ^ 16) 1970 (secTime / 60 / 60 / 24)
  { year := UInt16.ofNat year, mon := UInt8.ofNat mon, day := UInt8.ofNat day, hour := UInt8.ofNat (secTime / 60 / 60 % 24),
    min := UInt8.ofNat (secTime / 60 % 60), sec := UInt8.ofNat (secTime % 60), msec := UInt16.ofNat (nMsec % 1000) }

/-- `wow_time_msec_to_cp56`. -/
def msecToCp56 (nMsec : Nat) : CP56Time2a :=
  let secTime := nMsec / 60000
  let (year, mon, day) := dateOf (2 ^ 7) (1970 - 2000) (secTime / 60 / 24)
  { milliSecL := UInt8.ofNat (nMsec % 60000), milliSecH := UInt8.ofNat (nMsec % 60000 / 2 ^ 8),
    min := BitVec.ofNat 6 (secTime % 60), resv1 := 0, iv := 0, hour := BitVec.ofNat 5 (secTime / 60 % 24), resv2 := 0,
    su := 0, monDay := BitVec.ofNat 5 day, weekDay := 0, mon := BitVec.ofNat 4 mon, resv3 := 0,
    year := BitVec.ofNat 7 year, resv4 := 0 }

/-! ### To milliseconds -/

/-- A product in `int`. -/
def mulInt (m n : Int) : Option Int := if -2147483648 ≤ m * n ∧ m * n ≤ 2147483647 then some (m * n) else none

/-- `(year - 1970) * 365 * 24 * 3600`. -/
def yearsSec (year : Nat) : Option Int := do
  let days ← mulInt (year - 1970) 365
  let hours ← mulInt days 24
  mulInt hours 3600

/-- The loop over the leap years from 1970 on. -/
def addLeaps (year msec : Nat) : Nat :=
  (List.range' 1970 (year - 1970)).foldl (fun msec i => if rtcDataLeap i then asSize (msec + 24 * 3600) else msec) msec

/-- `gs_mon_days[leap][mon - 1]`. -/
def monDays (leap : Bool) (mon : Nat) : Option Nat := if mon = 0 then none else (gsMonDays leap)[mon - 1]?

/-- The seconds of a date, with those of its time of day; the year has the number `field` where the months are looked
up. -/
def dateSec (year field mon day time : Nat) : Option Nat := do
  let years ← yearsSec year
  let days ← monDays (rtcDataLeap field) mon
  let msec := asSize (addLeaps year (asSize years) + (days * 24 * 3600 : Nat))
  let msec := asSize (msec + ((day : Int) - 1) * 24 * 3600)
  some (asSize (msec + time))

/-- `wow_time_rtc_to_msec`. -/
def rtcToMsec (t : TimeInfo) : Option Nat := do
  let msec ← dateSec t.year.toNat t.year.toNat t.mon.toNat t.day.toNat
    (t.hour.toNat * 3600 + t.min.toNat * 60 + t.sec.toNat)
  some (asSize (msec * 1000 + t.msec.toNat))

/-- `wow_time_cp56_to_msec`. -/
def cp56ToMsec (t : CP56Time2a) : Option Nat := do
  let msec ← dateSec (t.year.toNat + 2000) t.year.toNat t.mon.toNat t.monDay.toNat
    (t.hour.toNat * 3600 + t.min.toNat * 60)
  some (asSize (msec * 1000 + t.milliSecH.toNat * 256 + t.milliSecL.toNat))

end Wow.System
