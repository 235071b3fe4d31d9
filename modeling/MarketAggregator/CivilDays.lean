import MarketAggregator.ArchiveKeys
import MarketAggregator.Calendar

/-!
# Days and dates in 64 bits

A parser of timestamps turns dates into days and the archive turns days into dates, each with
its own formula over years that begin in March. Both are total where no operation overflows,
and there each is the inverse of the other.
-/

namespace CivilDays

open Calendar

def I64 (n : Int) : Prop := -2 ^ 63 ≤ n ∧ n ≤ 2 ^ 63 - 1

instance (n : Int) : Decidable (I64 n) := inferInstanceAs (Decidable (_ ∧ _))

/-- A result that does not fit is an overflow. -/
def i64 (n : Int) : Option Int := if I64 n then some n else none

def add (a b : Int) : Option Int := i64 (a + b)

def sub (a b : Int) : Option Int := i64 (a - b)

def mul (a b : Int) : Option Int := i64 (a * b)

/-- The era of a year or a day. A negative one is moved back before the division. -/
def eraOf (a length : Int) : Option Int := do
  let start ← if 0 ≤ a then some a else sub a (length - 1)
  some (start.tdiv length)

def daysFromCivil (year month day : Int) : Option Int := do
  let year ← sub year (if month ≤ 2 then 1 else 0)
  let era ← eraOf year 400
  let yearOfEra ← sub year (← mul era 400)
  let fromMarch ← add month (if 2 < month then -3 else 9)
  let dayOfYear ← sub (← add ((← add (← mul 153 fromMarch) 2).tdiv 5) day) 1
  let dayOfEra ← add (← sub (← add (← mul yearOfEra 365) (yearOfEra.tdiv 4))
    (yearOfEra.tdiv 100)) dayOfYear
  sub (← add (← mul era 146097) dayOfEra) 719468

/-- A number of 32 bits, or else one. -/
def u32OrOne (n : Int) : Nat := if 0 ≤ n ∧ n < 2 ^ 32 then n.toNat else 1

def civilMonth (mp : Int) : Option Int := if mp < 10 then add mp 3 else sub mp 9

def civilFromDays (days : Int) : Option Date := do
  let z ← add days 719468
  let era ← eraOf z 146097
  let doe ← sub z (← mul era 146097)
  let yoe := (← sub (← add (← sub doe (doe.tdiv 1460)) (doe.tdiv 36524))
    (doe.tdiv 146096)).tdiv 365
  let y ← add yoe (← mul era 400)
  let doy ← sub doe (← sub (← add (← mul 365 yoe) (yoe.tdiv 4)) (yoe.tdiv 100))
  let mp := (← add (← mul 5 doy) 2).tdiv 153
  let d ← add (← sub doy ((← add (← mul 153 mp) 2).tdiv 5)) 1
  let m ← civilMonth mp
  let y ← add y (if m ≤ 2 then 1 else 0)
  some ⟨y, u32OrOne m, u32OrOne d⟩

section Words

variable {T : Type} {f : Int → Option T} {a b n m : Int} {e : EraDay}

theorem i64_some : i64 n = some m ↔ I64 n ∧ n = m := by
  rw [i64]
  split <;> simp [*]

theorem add_bind (fits : I64 (a + b)) : (add a b >>= f) = f (a + b) := by
  rw [add, i64, if_pos fits]
  rfl

theorem sub_bind (fits : I64 (a - b)) : (sub a b >>= f) = f (a - b) := by
  rw [sub, i64, if_pos fits]
  rfl

theorem mul_bind (fits : I64 (a * b)) : (mul a b >>= f) = f (a * b) := by
  rw [mul, i64, if_pos fits]
  rfl

theorem tdiv_of_nonneg (h : 0 ≤ a) : a.tdiv b = a / b := Int.tdiv_eq_ediv_of_nonneg h

/-- Moved back by its length, a negative era is rounded down. -/
theorem eraOf_bind (some_b : 0 < b) (fits : I64 (a - (b - 1))) : (eraOf a b >>= f) = f (a / b) := by
  rw [eraOf]
  split
  · rw [← tdiv_of_nonneg ‹_›]
    rfl
  · have flipped : a - (b - 1) = -(b - 1 - a) := by omega
    have whole := Int.emod_add_mul_ediv a b
    have up : (b - 1 - a) / b = -(a / b) := by
      refine ((Int.ediv_emod_unique (r := b - 1 - a % b) some_b).mpr ⟨?_, ?_, ?_⟩).1
      · rw [Int.mul_neg]
        omega
      · have below := Int.emod_lt_of_pos a some_b
        omega
      · have least := Int.emod_nonneg a (Int.ne_of_gt some_b)
        omega
    rw [bind_assoc, sub_bind fits]
    change f ((a - (b - 1)).tdiv b) = _
    rw [flipped, Int.neg_tdiv, tdiv_of_nonneg (by omega), up, Int.neg_neg]

theorem u32OrOne_eq (least : 0 ≤ a) (most : a < 2 ^ 32) : u32OrOne a = a.toNat :=
  if_pos ⟨least, most⟩

theorem civilMonth_bind (first : 0 ≤ a) (last : a ≤ 11) :
    (civilMonth a >>= f) = f (if a < 10 then a + 3 else a - 9) := by
  rw [civilMonth]
  split
  · exact add_bind ⟨by omega, by omega⟩
  · exact sub_bind ⟨by omega, by omega⟩

theorem civilFromDays_eq (fits : I64 n) (room : n + 719468 ≤ 2 ^ 63 - 1)
    (own : e.dayOfEra = (n + 719468) % 146097) :
    civilFromDays n = some (ofMarch ((n + 719468) / 146097 * 400 + e.yearOfEra) e.day) := by
  obtain ⟨least, most⟩ := fits
  have year := e.yearOfEra_eq
  have years := e.yearOfEra_bounds
  have inside := e.dayOfEra_bounds
  have days := e.dayOfEra_eq
  have day := e.day_bounds
  have doe : n + 719468 - (n + 719468) / 146097 * 146097 = e.dayOfEra := by omega
  have doy : e.dayOfEra - (365 * e.yearOfEra + e.yearOfEra / 4 - e.yearOfEra / 100) = e.day := by
    omega
  rw [civilFromDays, add_bind ⟨by omega, by omega⟩, eraOf_bind (by decide) ⟨by omega, by omega⟩,
    mul_bind ⟨by omega, by omega⟩, sub_bind ⟨by omega, by omega⟩, doe, tdiv_of_nonneg inside.1,
    tdiv_of_nonneg inside.1, tdiv_of_nonneg inside.1, sub_bind ⟨by omega, by omega⟩,
    add_bind ⟨by omega, by omega⟩, sub_bind ⟨by omega, by omega⟩]
  dsimp only
  rw [tdiv_of_nonneg (by omega), year, tdiv_of_nonneg years.1, tdiv_of_nonneg years.1,
    mul_bind ⟨by omega, by omega⟩, add_bind ⟨by omega, by omega⟩, mul_bind ⟨by omega, by omega⟩,
    add_bind ⟨by omega, by omega⟩, sub_bind ⟨by omega, by omega⟩, sub_bind ⟨by omega, by omega⟩,
    doy, mul_bind ⟨by omega, by omega⟩, add_bind ⟨by omega, by omega⟩, tdiv_of_nonneg (by omega),
    mul_bind ⟨by omega, by omega⟩, add_bind ⟨by omega, by omega⟩, tdiv_of_nonneg (by omega),
    sub_bind ⟨by omega, by omega⟩, add_bind ⟨by omega, by omega⟩,
    civilMonth_bind (by omega) (by omega),
    add_bind ⟨by omega, by omega⟩, Int.add_comm e.yearOfEra]
  rw [ofMarch, u32OrOne_eq (by split <;> omega) (by split <;> omega),
    u32OrOne_eq (by omega) (by omega)]

/-- Days that are computed without an overflow. -/
def Counted (n : Int) : Prop := I64 n ∧ n + 719468 ≤ 2 ^ 63 - 1

variable {d : Date} {month day : Nat}

theorem marchYear_cast (d : Date) :
    d.year - (if (d.month : Int) ≤ 2 then 1 else 0) = marchYear d := by
  rw [marchYear]
  split_ifs <;> omega

theorem sub_marchYear (fits : I64 (marchYear d)) :
    (sub d.year (if (d.month : Int) ≤ 2 then 1 else 0) >>= f) = f (marchYear d) := by
  rw [← marchYear_cast d] at fits ⊢
  exact sub_bind fits

theorem add_marchMonth (some_month : 1 ≤ month) (last_month : month ≤ 12) :
    (add month (if (2 : Int) < month then -3 else 9) >>= f) = f (marchMonth month) := by
  have same : (month : Int) + (if (2 : Int) < month then -3 else 9) = marchMonth month := by
    rw [marchMonth]
    split_ifs <;> omega
  have bounds := marchMonth_bounds some_month last_month
  rw [← same] at bounds ⊢
  exact add_bind ⟨by omega, by omega⟩

/-- The days of a date, and of a day up to the 31st that its month does not have. -/
theorem daysFromCivil_eq (some_month : 1 ≤ d.month) (last_month : d.month ≤ 12)
    (some_day : 1 ≤ d.day) (last_day : d.day ≤ 31) (counted : Counted (marchNumber d)) :
    daysFromCivil d.year d.month d.day = some (marchNumber d) := by
  obtain ⟨⟨least, most⟩, room⟩ := counted
  have number : marchNumber d = 365 * marchYear d + _ - _ + _ + marchDay d - 719468 := rfl
  have month := marchMonth_bounds some_month last_month
  have own : marchDay d = (153 * marchMonth d.month + 2) / 5 + d.day - 1 := rfl
  rw [daysFromCivil, sub_marchYear ⟨by omega, by omega⟩,
    eraOf_bind (by decide) ⟨by omega, by omega⟩,
    mul_bind ⟨by omega, by omega⟩, sub_bind ⟨by omega, by omega⟩,
    add_marchMonth some_month last_month, mul_bind ⟨by omega, by omega⟩,
    add_bind ⟨by omega, by omega⟩, tdiv_of_nonneg (by omega), add_bind ⟨by omega, by omega⟩,
    sub_bind ⟨by omega, by omega⟩, ← own, mul_bind ⟨by omega, by omega⟩,
    tdiv_of_nonneg (by omega), add_bind ⟨by omega, by omega⟩, tdiv_of_nonneg (by omega),
    sub_bind ⟨by omega, by omega⟩, add_bind ⟨by omega, by omega⟩, mul_bind ⟨by omega, by omega⟩,
    add_bind ⟨by omega, by omega⟩, sub, i64_some]
  refine ⟨⟨by omega, by omega⟩, by omega⟩

theorem i64_inv {S : Type} {g : Int → Option S} {r : S} (h : (i64 n >>= g) = some r) :
    I64 n ∧ g n = some r := by
  obtain ⟨m, kept, next⟩ := Option.bind_eq_some_iff.mp h
  obtain ⟨fits, rfl⟩ := i64_some.mp kept
  exact ⟨fits, next⟩

theorem eraOf_inv {S : Type} {g : Int → Option S} {r : S} (some_b : 0 < b)
    (h : (eraOf a b >>= g) = some r) : g (a / b) = some r := by
  by_cases fits : I64 (a - (b - 1))
  · rwa [eraOf_bind some_b fits] at h
  · rw [eraOf] at h
    split at h
    · rwa [← tdiv_of_nonneg ‹_›]
    · rw [sub, i64, if_neg fits] at h
      cases h

/-- Where no operation overflows, the days of a date are counted. -/
theorem daysFromCivil_some (valid : d.Valid)
    (computed : daysFromCivil d.year d.month d.day = some n) : Counted n ∧ n = marchNumber d := by
  have number : marchNumber d = 365 * marchYear d + _ - _ + _ + marchDay d - 719468 := rfl
  have month := marchMonth_bounds valid.some_month valid.last_month
  have own : marchDay d = (153 * marchMonth d.month + 2) / 5 + d.day - 1 := rfl
  rw [daysFromCivil, sub] at computed
  obtain ⟨-, rest⟩ := i64_inv computed
  rw [marchYear_cast] at rest
  have rest := eraOf_inv (by decide) rest
  rw [mul] at rest
  obtain ⟨-, rest⟩ := i64_inv rest
  rw [sub] at rest
  obtain ⟨-, rest⟩ := i64_inv rest
  rw [add_marchMonth valid.some_month valid.last_month, mul_bind ⟨by omega, by omega⟩,
    add_bind ⟨by omega, by omega⟩, tdiv_of_nonneg (by omega), add] at rest
  obtain ⟨-, rest⟩ := i64_inv rest
  rw [sub] at rest
  obtain ⟨-, rest⟩ := i64_inv rest
  rw [← own, mul_bind ⟨by omega, by omega⟩,
    tdiv_of_nonneg (by omega), add_bind ⟨by omega, by omega⟩, tdiv_of_nonneg (by omega),
    sub_bind ⟨by omega, by omega⟩, add] at rest
  obtain ⟨-, rest⟩ := i64_inv rest
  rw [mul] at rest
  obtain ⟨-, rest⟩ := i64_inv rest
  rw [add] at rest
  obtain ⟨⟨-, room⟩, rest⟩ := i64_inv rest
  rw [sub, i64_some] at rest
  obtain ⟨fits, rfl⟩ := rest
  exact ⟨⟨fits, by omega⟩, by omega⟩

theorem civilFromDays_some (counted : Counted n) :
    ∃ d : Date, civilFromDays n = some d ∧ d.Valid ∧ marchNumber d = n := by
  obtain ⟨e, own⟩ := EraDay.exists_dayOfEra (n := (n + 719468) % 146097) (by omega) (by omega)
  obtain ⟨some_day, days⟩ := e.day_bounds
  have leap := isLeap_add ((n + 719468) / 146097) (e.yearOfEra + 1)
  rw [← Int.add_assoc] at leap
  obtain ⟨valid, year, day⟩ := march_ofMarch some_day (days.imp_right (And.imp_right leap.mpr))
  have bounds := e.yearOfEra_bounds
  have whole := e.dayOfEra_eq
  refine ⟨_, civilFromDays_eq counted.1 counted.2 own, valid, ?_⟩
  rw [marchNumber, year, day]
  omega

theorem civilFromDays_marchNumber (valid : d.Valid) (counted : Counted (marchNumber d)) :
    civilFromDays (marchNumber d) = some d := by
  obtain ⟨some_day, days⟩ := march_bounds valid
  have number : marchNumber d = 365 * marchYear d + _ - _ + _ + marchDay d - 719468 := rfl
  have leap := isLeap_add (marchYear d / 400) (marchYear d % 400 + 1)
  rw [← Int.add_assoc, Int.mul_comm, Int.mul_ediv_add_emod] at leap
  have some_year : 0 ≤ marchYear d % 400 := by omega
  obtain ⟨e, year, day⟩ := EraDay.exists_yearOfEra some_year (by omega) some_day
    (days.imp_right (And.imp_right leap.mp))
  have whole := e.dayOfEra_eq
  have inside := e.dayOfEra_bounds
  rw [year, day] at whole
  have split : marchNumber d + 719468 = marchYear d / 400 * 146097 + e.dayOfEra := by omega
  rw [civilFromDays_eq (e := e) counted.1 counted.2 (by omega), day, year]
  have era : (marchNumber d + 719468) / 146097 * 400 + marchYear d % 400 = marchYear d := by omega
  rw [era, ofMarch_march valid]

theorem daysFromCivil_valid (valid : d.Valid) (counted : Counted (marchNumber d)) :
    daysFromCivil d.year d.month d.day = some (marchNumber d) :=
  daysFromCivil_eq valid.some_month valid.last_month valid.some_day
    (valid.last_day.trans daysInMonth_le) counted

/-- The archive counts days from the epoch on with natural numbers. -/
theorem civilFromDays_nat {k : Nat} (counted : Counted k) :
    civilFromDays k = some ⟨(ArchiveKeys.civilFromDays k).1, (ArchiveKeys.civilFromDays k).2.1,
      (ArchiveKeys.civilFromDays k).2.2⟩ := by
  obtain ⟨e, own⟩ := EraDay.exists_dayOfEra (n := ((k : Int) + 719468) % 146097) (by omega)
    (by omega)
  have year := e.yearOfEra_eq
  have days := e.dayOfEra_eq
  have bounds := e.yearOfEra_bounds
  have day := e.day_bounds
  rw [civilFromDays_eq counted.1 counted.2 own, ArchiveKeys.civilFromDays, ofMarch]
  dsimp only
  generalize era : (k + 719468) / 146097 = era'
  have doe : ((k + 719468 - era' * 146097 : Nat) : Int) = e.dayOfEra := by omega
  generalize k + 719468 - era' * 146097 = doe' at doe
  generalize yoe : (doe' - doe' / 1460 + doe' / 36524 - doe' / 146096) / 365 = yoe'
  have same : (yoe' : Int) = e.yearOfEra := by omega
  generalize doy : doe' - (365 * yoe' + yoe' / 4 - yoe' / 100) = doy'
  rw [← doe, ← same] at days
  have also : (doy' : Int) = e.day := by omega
  generalize mp : (5 * doy' + 2) / 153 = mp'
  have month : (5 * e.day + 2) / 153 = mp' := by omega
  rw [month]
  congr 2
  · split_ifs <;> omega
  · split_ifs <;> omega
  · omega

/-- Neither half overflows where the other does not, each is the inverse of the other, and
the day after a date is one day later. -/
theorem halves_inverse :
    (∀ d n, Date.Valid d → daysFromCivil d.year d.month d.day = some n →
      civilFromDays n = some d) ∧
    (∀ n d, I64 n → civilFromDays n = some d →
      d.Valid ∧ daysFromCivil d.year d.month d.day = some n) ∧
    (∀ n, I64 n → ((civilFromDays n).isSome ↔ n + 719468 ≤ 2 ^ 63 - 1)) ∧
    (∀ d n m, Date.Valid d → daysFromCivil d.year d.month d.day = some n →
      (daysFromCivil d.next.year d.next.month d.next.day = some m ↔
        m = n + 1 ∧ m + 719468 ≤ 2 ^ 63 - 1)) ∧
    daysFromCivil 1970 1 1 = some 0 := by
  have room : ∀ n d, civilFromDays n = some d → n + 719468 ≤ 2 ^ 63 - 1 := by
    intro n d dated
    rw [civilFromDays, add] at dated
    exact (i64_inv dated).1.2
  refine ⟨?_, ?_, ?_, ?_, by decide⟩
  · intro d n valid computed
    obtain ⟨counted, rfl⟩ := daysFromCivil_some valid computed
    exact civilFromDays_marchNumber valid counted
  · intro n d fits dated
    have counted : Counted n := ⟨fits, room n d dated⟩
    obtain ⟨d', dated', valid, rfl⟩ := civilFromDays_some counted
    obtain rfl := Option.some.inj (dated'.symm.trans dated)
    exact ⟨valid, daysFromCivil_valid valid counted⟩
  · intro n fits
    constructor
    · intro dated
      obtain ⟨d, dated⟩ := Option.isSome_iff_exists.mp dated
      exact room n d dated
    · intro short
      obtain ⟨d, dated, -⟩ := civilFromDays_some ⟨fits, short⟩
      rw [dated]
      rfl
  · intro d n m valid computed
    obtain ⟨⟨fits, -⟩, rfl⟩ := daysFromCivil_some valid computed
    have following : marchNumber d.next = marchNumber d + 1 := by
      rw [← number_march valid, ← number_march (valid_next valid), number_next valid]
    constructor
    · intro next
      obtain ⟨⟨-, short⟩, rfl⟩ := daysFromCivil_some (valid_next valid) next
      exact ⟨following, short⟩
    · rintro ⟨rfl, short⟩
      obtain ⟨least, most⟩ := fits
      rw [← following] at short ⊢
      exact daysFromCivil_valid (valid_next valid) ⟨⟨by omega, by omega⟩, short⟩

end Words
end CivilDays
