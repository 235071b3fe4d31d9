import Mathlib.Data.Int.Basic
import Mathlib.Data.List.Range
import Mathlib.Tactic.IntervalCases

/-!
# The proleptic Gregorian calendar

Dates are counted from the first of January 1970. A year that begins in March ends with its
leap day, so the days before a month do not depend on the year, and 400 such years are one
era of 146097 days.
-/

namespace Calendar

/-- An era has 400 years. -/
def IsLeap (year : Int) : Prop := year % 4 = 0 ∧ (year % 100 ≠ 0 ∨ year % 400 = 0)

instance (year : Int) : Decidable (IsLeap year) := inferInstanceAs (Decidable (_ ∧ _))

def daysInMonth (year : Int) (month : Nat) : Nat :=
  if month = 2 then if IsLeap year then 29 else 28
  else if month = 4 ∨ month = 6 ∨ month = 9 ∨ month = 11 then 30
  else 31

structure Date where
  year : Int
  month : Nat
  day : Nat
  deriving DecidableEq, Repr

structure Date.Valid (d : Date) : Prop where
  some_month : 1 ≤ d.month
  last_month : d.month ≤ 12
  some_day : 1 ≤ d.day
  last_day : d.day ≤ daysInMonth d.year d.month

instance (d : Date) : Decidable d.Valid :=
  decidable_of_iff
    (1 ≤ d.month ∧ d.month ≤ 12 ∧ 1 ≤ d.day ∧ d.day ≤ daysInMonth d.year d.month)
    ⟨fun h => ⟨h.1, h.2.1, h.2.2.1, h.2.2.2⟩,
      fun h => ⟨h.some_month, h.last_month, h.some_day, h.last_day⟩⟩

/-- The day after a date. -/
def Date.next (d : Date) : Date :=
  if d.day < daysInMonth d.year d.month then { d with day := d.day + 1 }
  else if d.month < 12 then ⟨d.year, d.month + 1, 1⟩
  else ⟨d.year + 1, 1, 1⟩

/-- Leap years before a year, from an origin of no meaning. -/
def leapsBefore (year : Int) : Int := (year - 1) / 4 - (year - 1) / 100 + (year - 1) / 400

def daysBefore (year : Int) (month : Nat) : Nat :=
  ((List.range' 1 (month - 1)).map (daysInMonth year)).sum

/-- Days from the first of January 1970. -/
def Date.number (d : Date) : Int :=
  365 * (d.year - 1970) + (leapsBefore d.year - leapsBefore 1970) + daysBefore d.year d.month +
    d.day - 1

section Days

variable {d : Date} {year : Int} {month : Nat}

theorem daysInMonth_pos : 1 ≤ daysInMonth year month := by
  rw [daysInMonth]
  split_ifs <;> omega

theorem daysInMonth_le : daysInMonth year month ≤ 31 := by
  rw [daysInMonth]
  split_ifs <;> omega

theorem isLeap_add (era year : Int) : IsLeap (era * 400 + year) ↔ IsLeap year := by
  rw [IsLeap, IsLeap]
  omega

theorem valid_next (valid : d.Valid) : d.next.Valid := by
  obtain ⟨some_month, last_month, some_day, last_day⟩ := valid
  rw [Date.next]
  split_ifs with more later
  · exact ⟨some_month, last_month, Nat.le_add_left 1 _, more⟩
  · exact ⟨Nat.le_add_left 1 _, later, le_rfl, daysInMonth_pos⟩
  · exact ⟨le_rfl, Nat.le_add_left 1 11, le_rfl, daysInMonth_pos⟩

theorem leapsBefore_succ :
    leapsBefore (year + 1) = leapsBefore year + if IsLeap year then 1 else 0 := by
  rw [leapsBefore, leapsBefore]
  split
  · rename_i leap
    rw [IsLeap] at leap
    omega
  · rename_i common
    rw [IsLeap] at common
    omega

theorem daysBefore_succ (some_month : 1 ≤ month) :
    daysBefore year (month + 1) = daysBefore year month + daysInMonth year month := by
  obtain ⟨k, rfl⟩ := Nat.exists_eq_add_of_le' some_month
  rw [daysBefore, daysBefore, Nat.add_sub_cancel, Nat.add_sub_cancel, List.range'_concat,
    List.map_append, List.sum_append, Nat.one_mul, Nat.add_comm 1 k]
  rfl

theorem daysBefore_year : daysBefore year 13 = if IsLeap year then 366 else 365 := by
  by_cases leap : IsLeap year <;> simp [daysBefore, List.range', daysInMonth, leap]

/-- The next day has the next number. -/
theorem number_next (valid : d.Valid) : d.next.number = d.number + 1 := by
  obtain ⟨some_month, last_month, some_day, last_day⟩ := valid
  rw [Date.next]
  split_ifs with more later
  · simp only [Date.number]
    omega
  · simp only [Date.number, daysBefore_succ some_month]
    omega
  · have december : d.month = 12 := by omega
    have whole : daysBefore d.year 12 + daysInMonth d.year 12 = daysBefore d.year 13 :=
      (daysBefore_succ (by decide)).symm
    rw [daysBefore_year] at whole
    rw [december] at more last_day
    have first : daysBefore (d.year + 1) 1 = 0 := rfl
    simp only [Date.number, leapsBefore_succ, december, first]
    split_ifs at whole ⊢ <;> omega

end Days

/-- A year of an era by its century, its four years and its year in them, all from zero, with a
day of the year from March on. Only a year before a leap year has the last day. -/
structure EraDay where
  century : Int
  four : Int
  year : Int
  day : Int
  centuries : 0 ≤ century ∧ century ≤ 3
  fours : 0 ≤ four ∧ four ≤ 24
  years : 0 ≤ year ∧ year ≤ 3
  some_day : 0 ≤ day
  days : day ≤ 364 ∨ day = 365 ∧ year = 3 ∧ (four < 24 ∨ century = 3)

namespace EraDay

def yearOfEra (e : EraDay) : Int := 100 * e.century + 4 * e.four + e.year

def dayOfEra (e : EraDay) : Int := 36524 * e.century + 1461 * e.four + 365 * e.year + e.day

theorem exists_dayOfEra {n : Int} (some_day : 0 ≤ n) (inside : n < 146097) :
    ∃ e : EraDay, e.dayOfEra = n := by
  obtain ⟨c, c0, c3, from_c, to_c⟩ : ∃ c, 0 ≤ c ∧ c ≤ 3 ∧ 36524 * c ≤ n ∧
      (n < 36524 * c + 36524 ∨ c = 3) := ⟨min (n / 36524) 3, by omega⟩
  obtain ⟨q, q0, q24, from_q, to_q⟩ : ∃ q, 0 ≤ q ∧ q ≤ 24 ∧ 36524 * c + 1461 * q ≤ n ∧
      n < 36524 * c + 1461 * q + 1461 := ⟨(n - 36524 * c) / 1461, by omega⟩
  obtain ⟨r, r0, r3, from_r, to_r⟩ : ∃ r, 0 ≤ r ∧ r ≤ 3 ∧ 36524 * c + 1461 * q + 365 * r ≤ n ∧
      (n < 36524 * c + 1461 * q + 365 * r + 365 ∨ r = 3) :=
    ⟨min ((n - 36524 * c - 1461 * q) / 365) 3, by omega⟩
  refine ⟨⟨c, q, r, n - (36524 * c + 1461 * q + 365 * r), ⟨c0, c3⟩, ⟨q0, q24⟩, ⟨r0, r3⟩,
    by omega, by omega⟩, ?_⟩
  simp only [dayOfEra]
  omega

theorem exists_yearOfEra {year day : Int} (some_year : 0 ≤ year) (inside : year < 400)
    (some_day : 0 ≤ day) (days : day ≤ 364 ∨ day = 365 ∧ IsLeap (year + 1)) :
    ∃ e : EraDay, e.yearOfEra = year ∧ e.day = day := by
  refine ⟨⟨year / 100, year % 100 / 4, year % 4, day, by omega, by omega, by omega, some_day, ?_⟩,
    ?_, rfl⟩
  · rw [IsLeap] at days
    omega
  · simp only [yearOfEra]
    omega

variable (e : EraDay)

theorem yearOfEra_bounds : 0 ≤ e.yearOfEra ∧ e.yearOfEra < 400 := by
  obtain ⟨c, q, r, day, centuries, fours, years, -, -⟩ := e
  simp only [yearOfEra]
  omega

theorem dayOfEra_bounds : 0 ≤ e.dayOfEra ∧ e.dayOfEra < 146097 := by
  obtain ⟨c, q, r, day, centuries, fours, years, some_day, days⟩ := e
  simp only [dayOfEra]
  omega

theorem dayOfEra_eq : e.dayOfEra =
    e.yearOfEra * 365 + e.yearOfEra / 4 - e.yearOfEra / 100 + e.day := by
  obtain ⟨c, q, r, day, centuries, fours, years, -, -⟩ := e
  simp only [dayOfEra, yearOfEra]
  omega

theorem day_bounds : 0 ≤ e.day ∧ (e.day ≤ 364 ∨ e.day = 365 ∧ IsLeap (e.yearOfEra + 1)) := by
  obtain ⟨c, q, r, day, centuries, fours, years, some_day, days⟩ := e
  simp only [yearOfEra, IsLeap]
  omega

/-- The year of an era, from the day of the era. -/
theorem yearOfEra_eq : (e.dayOfEra - e.dayOfEra / 1460 + e.dayOfEra / 36524 -
    e.dayOfEra / 146096) / 365 = e.yearOfEra := by
  obtain ⟨c, q, r, day, centuries, fours, years, some_day, days⟩ := e
  simp only [dayOfEra, yearOfEra]
  generalize whole : 36524 * c + 1461 * q + 365 * r + day = n
  -- Only the last day of an era is past the days of its centuries.
  have part : 1461 * q + 365 * r + day < 36524 ∨
      c = 3 ∧ 1461 * q + 365 * r + day = 36524 := by omega
  have by_century : n / 36524 - n / 146096 = c := by
    rcases part with part | part <;> omega
  have by_four : n / 1460 = 25 * c + q + (24 * c + q + 365 * r + day) / 1460 := by omega
  generalize (24 * c + q + 365 * r + day) / 1460 = past at by_four
  omega

end EraDay

section Months

/-- The month of a year that begins in March, from zero. -/
def marchMonth (month : Nat) : Int := month + if 2 < month then -3 else 9

/-- The year that begins in March and that a date is in. -/
def marchYear (d : Date) : Int := d.year - if d.month ≤ 2 then 1 else 0

/-- The day of that year, from zero. -/
def marchDay (d : Date) : Int := (153 * marchMonth d.month + 2) / 5 + d.day - 1

/-- The date of a day of a year that begins in March. -/
def ofMarch (year day : Int) : Date :=
  let month := (5 * day + 2) / 153
  let civil := if month < 10 then month + 3 else month - 9
  ⟨year + if civil ≤ 2 then 1 else 0, civil.toNat, (day - (153 * month + 2) / 5 + 1).toNat⟩

variable {d : Date} {year day : Int}

/-- The length of a month, in days from its first one in the year that begins in March. -/
theorem daysInMonth_march (some_month : 1 ≤ d.month) (last_month : d.month ≤ 12) :
    (153 * marchMonth d.month + 2) / 5 + daysInMonth d.year d.month =
      if d.month = 2 then if IsLeap (marchYear d + 1) then 366 else 365
      else (153 * (marchMonth d.month + 1) + 2) / 5 := by
  obtain ⟨year, month, day⟩ := d
  simp only at some_month last_month
  interval_cases month <;> simp [marchMonth, marchYear, daysInMonth]
  split <;> rfl

theorem marchMonth_bounds {month : Nat} (some_month : 1 ≤ month) (last_month : month ≤ 12) :
    0 ≤ marchMonth month ∧ (month = 2 ∧ marchMonth month = 11 ∨
      month ≠ 2 ∧ marchMonth month ≤ 10) := by
  rw [marchMonth]
  split <;> omega

theorem march_bounds (valid : d.Valid) :
    0 ≤ marchDay d ∧ (marchDay d ≤ 364 ∨ marchDay d = 365 ∧ IsLeap (marchYear d + 1)) := by
  obtain ⟨some_month, last_month, some_day, last_day⟩ := valid
  have length := daysInMonth_march some_month last_month
  have month := marchMonth_bounds some_month last_month
  rw [marchDay]
  split_ifs at length with february leap
  · refine ⟨by omega, ?_⟩
    by_cases last : (d.day : Int) = daysInMonth d.year d.month
    · exact .inr ⟨by omega, leap⟩
    · exact .inl (by omega)
  · omega
  · omega

theorem ofMarch_march (valid : d.Valid) : ofMarch (marchYear d) (marchDay d) = d := by
  obtain ⟨some_month, last_month, some_day, last_day⟩ := valid
  have length := daysInMonth_march some_month last_month
  have bounds := marchMonth_bounds some_month last_month
  have month : (5 * marchDay d + 2) / 153 = marchMonth d.month := by
    rw [marchDay]
    split_ifs at length <;> omega
  have civil : (if marchMonth d.month < 10 then marchMonth d.month + 3
      else marchMonth d.month - 9) = d.month := by
    rw [marchMonth]
    split_ifs <;> omega
  rw [ofMarch, month, civil]
  obtain ⟨year, month, day⟩ := d
  simp only [marchYear, marchDay, Date.mk.injEq]
  refine ⟨?_, by omega, by omega⟩
  split_ifs <;> omega

theorem march_ofMarch (some_day : 0 ≤ day) (days : day ≤ 364 ∨ day = 365 ∧ IsLeap (year + 1)) :
    (ofMarch year day).Valid ∧ marchYear (ofMarch year day) = year ∧
      marchDay (ofMarch year day) = day := by
  rw [IsLeap] at days
  have bounds : 0 ≤ (5 * day + 2) / 153 ∧ (5 * day + 2) / 153 ≤ 11 := by omega
  generalize own : (5 * day + 2) / 153 = month at bounds
  obtain ⟨first, last⟩ := bounds
  have shape : ofMarch year day = ⟨year + if month ≤ 9 then 0 else 1,
      (if month < 10 then month + 3 else month - 9).toNat,
      (day - (153 * month + 2) / 5 + 1).toNat⟩ := by
    rw [ofMarch, own]
    congr 1
    split_ifs <;> omega
  rw [shape]
  interval_cases month <;> refine ⟨⟨?_, ?_, ?_, ?_⟩, ?_, ?_⟩ <;>
    simp [marchYear, marchDay, marchMonth, daysInMonth, IsLeap] <;> omega

theorem daysBefore_march {month : Nat} (some_month : 1 ≤ month) (last_month : month ≤ 12) :
    (daysBefore year month : Int) = if month ≤ 2 then 31 * (month - 1 : Int)
      else (153 * marchMonth month + 2) / 5 + if IsLeap year then 60 else 59 := by
  by_cases leap : IsLeap year <;> interval_cases month <;>
    simp [daysBefore, List.range', daysInMonth, marchMonth, leap]

/-- Days from the first of January 1970, by the year that begins in March. -/
def marchNumber (d : Date) : Int :=
  365 * marchYear d + marchYear d / 4 - marchYear d / 100 + marchYear d / 400 + marchDay d - 719468

/-- The days of four-digit years, and of any day up to the 31st of their months, are few. -/
theorem marchNumber_bounds (some_month : 1 ≤ d.month) (last_month : d.month ≤ 12)
    (last_day : d.day ≤ 31) (years : -9999 ≤ d.year ∧ d.year ≤ 9999) :
    -5000000 ≤ marchNumber d ∧ marchNumber d ≤ 5000000 := by
  have month := marchMonth_bounds some_month last_month
  rw [marchNumber, marchYear, marchDay]
  split_ifs <;> omega

theorem number_march (valid : d.Valid) : d.number = marchNumber d := by
  have origin : leapsBefore 1970 = 477 := rfl
  have before : (daysBefore d.year d.month : Int) = _ :=
    daysBefore_march valid.some_month valid.last_month
  have month := marchMonth_bounds valid.some_month valid.last_month
  have leaps : leapsBefore (d.year + 1) = leapsBefore d.year + _ := leapsBefore_succ
  rw [Date.number, before, origin, marchNumber, marchDay, marchYear]
  split_ifs with early leap
  · rw [leapsBefore, marchMonth, if_neg (by omega)]
    omega
  · rw [if_pos leap, leapsBefore, Int.add_sub_cancel] at leaps
    omega
  · rw [if_neg leap, leapsBefore, Int.add_sub_cancel] at leaps
    omega

end Months

end Calendar
