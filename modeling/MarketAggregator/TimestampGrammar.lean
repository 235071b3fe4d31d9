import MarketAggregator.VenueTimestamps

/-!
# The grammar of timestamps

A text is accepted as a spelling: its fields, the digits of a fraction and a zone. The
documented grammar has fewer spellings, with plain digits everywhere and a date that exists.
-/

namespace TimestampGrammar

open ArchiveKeys (parseU64)
open Calendar CivilDays Clocks Utf8Text VenueTimestamps

def fractionText : Option (List Char) → List Char
  | none => []
  | some digits => '.' :: digits

def fractionValue (f : Option (List Char)) : Nat := f.elim 0 fractionNanos

def FractionDigits (f : Option (List Char)) : Prop :=
  ∀ digits, f = some digits → digits ≠ [] ∧ ∀ c ∈ digits, c.isDigit = true

section Fractions

variable {f : Option (List Char)} {s rest : List Char} {n : Nat}

/-- What follows a fraction neither goes on with it nor starts another. -/
def Stops (rest : List Char) : Prop := ∀ c, rest.head? = some c → c ∈ ['Z', 'z', '+', '-']

theorem fraction_read (plain : FractionDigits f) (stops : Stops rest) :
    fraction (fractionText f ++ rest) = .some (fractionValue f, rest) := by
  have others : ∀ c ∈ ['Z', 'z', '+', '-'], c.isDigit = false ∧ c ≠ '.' := by simp [Char.isDigit]
  cases f with
  | none => exact fraction_none fun dot => (others '.' (stops '.' dot)).2 rfl
  | some digits =>
    obtain ⟨some_digit, digit⟩ := plain digits rfl
    exact fraction_dot some_digit digit fun c head => (others c (stops c head)).1

theorem fraction_some (cut : fraction s = .some (n, rest)) :
    ∃ f, FractionDigits f ∧ s = fractionText f ++ rest ∧ n = fractionValue f := by
  rcases fraction_cases s with absent | refused | ⟨digits, later, some_digit, plain, stop, rfl⟩
  · rw [fraction_none absent] at cut
    cases cut
    exact ⟨none, nofun, rfl, rfl⟩
  · rw [refused] at cut
    cases cut
  · rw [fraction_dot some_digit plain stop] at cut
    cases cut
    refine ⟨some digits, ?_, rfl, rfl⟩
    rintro _ ⟨⟩
    exact ⟨some_digit, plain⟩

theorem fraction_returns (s : List Char) : (fraction s).Returns := by
  rcases fraction_cases s with absent | refused | ⟨digits, later, some_digit, plain, stop, rfl⟩
  · rw [fraction_none absent]
    exact Outcome.some_returns _
  · rw [refused]
    exact nofun
  · rw [fraction_dot some_digit plain stop]
    exact Outcome.some_returns _

theorem fractionValue_lt (plain : FractionDigits f) : fractionValue f < 1000000000 := by
  cases f with
  | none => decide
  | some digits => exact fractionNanos_lt (plain digits rfl).2

end Fractions

structure Spelling where
  written : Written
  fraction : Option (List Char)
  zone : Zone

def Spelling.text (s : Spelling) : List Char :=
  s.written.text ++ (fractionText s.fraction ++ s.zone.text)

/-- The fields are read as a time and as the seconds of an offset. -/
structure Spelling.Accepted (s : Spelling) (t : CivilTime) (secs : Int) : Prop where
  dated : s.written.Dated t
  digits : FractionDigits s.fraction
  zone : s.zone.Reads secs

/-- A time and a fraction are accepted, and the offset behind them is cut inside a character. -/
def CutOffset (raw : List Char) : Prop :=
  ∃ (w : Written) (t : CivilTime) (f : Option (List Char)) (rest : List Char),
    raw = w.text ++ (fractionText f ++ rest) ∧ w.Dated t ∧ FractionDigits f ∧ CutInside rest

section Parsing

variable {raw rest : List Char} {s : Spelling} {t : CivilTime} {z : Zone} {secs n : Int} {p : Panic}
  {i : Nat} {allowed : List Char}

theorem stops_zone (reads : z.Reads secs) : Stops z.text := by
  intro c head
  cases z with
  | absent => cases head
  | utc c' trailing =>
    cases head
    exact List.mem_append_left ['+', '-'] reads.1
  | colon sign hours minutes =>
    cases head
    exact List.mem_append_right ['Z', 'z'] reads.1
  | compact sign hours minutes =>
    cases head
    exact List.mem_append_right ['Z', 'z'] reads.1

theorem stops_cutInside (cut : CutInside rest) : Stops rest := by
  obtain ⟨sign, body, rfl, own, -⟩ := cut
  rintro _ ⟨⟩
  exact List.mem_append_right ['Z', 'z'] own

theorem expectByte_returns (inside : i < byteLen raw) : (expectByte raw i allowed).Returns := by
  refine Outcome.bind_returns ?_ fun b _ => Outcome.require_returns
  rw [byteAt, List.getElem?_eq_getElem inside]
  exact Outcome.some_returns _

theorem dateTime_returns (raw : List Char) : (dateTime raw).Returns := by
  refine Outcome.bind_returns Outcome.require_returns fun _ long => ?_
  have long := Outcome.require_some.mp long
  refine Outcome.bind_returns (expectByte_returns (by omega)) fun _ _ => ?_
  refine Outcome.bind_returns (expectByte_returns (by omega)) fun _ _ => ?_
  refine Outcome.bind_returns (expectByte_returns (by omega)) fun _ _ => ?_
  refine Outcome.bind_returns (expectByte_returns (by omega)) fun _ _ => ?_
  refine Outcome.bind_returns (expectByte_returns (by omega)) fun _ _ => ?_
  refine Outcome.bind_returns (Outcome.ofOption_returns _) fun year _ => ?_
  refine Outcome.bind_returns (Outcome.ofOption_returns _) fun month _ => ?_
  refine Outcome.bind_returns (Outcome.ofOption_returns _) fun day _ => ?_
  refine Outcome.bind_returns (Outcome.ofOption_returns _) fun hour _ => ?_
  refine Outcome.bind_returns (Outcome.ofOption_returns _) fun minute _ => ?_
  refine Outcome.bind_returns (Outcome.ofOption_returns _) fun second _ => ?_
  exact Outcome.bind_returns Outcome.require_returns fun _ _ => Outcome.some_returns _

theorem instant_accepted (accepted : s.Accepted t secs) :
    instant t (fractionValue s.fraction) secs =
      .some (nanosOf t (fractionValue s.fraction) secs) :=
  instant_some (parseI64_bounds accepted.dated.year.1.le accepted.dated.year.2)
    accepted.dated.inRange (zone_bounds accepted.zone) (fractionValue_lt accepted.digits)

theorem parseRfc3339_some : parseRfc3339 raw = .some n ↔
    ∃ (s : Spelling) (t : CivilTime) (secs : Int), s.text = raw ∧ s.Accepted t secs ∧
      n = nanosOf t (fractionValue s.fraction) secs := by
  simp only [parseRfc3339, Outcome.bind_some, Outcome.ofOption_some]
  constructor
  · rintro ⟨t, read, rest, left, ⟨nanos, later⟩, cut, secs, offset, computed⟩
    obtain ⟨w, dated, rfl⟩ := written_of_dateTime read left
    obtain ⟨f, digits, rfl, rfl⟩ := fraction_some cut
    obtain ⟨z, rfl, reads⟩ := offsetSecs_some.mp offset
    have accepted : Spelling.Accepted ⟨w, f, z⟩ t secs := ⟨dated, digits, reads⟩
    rw [instant_accepted accepted] at computed
    cases computed
    exact ⟨⟨w, f, z⟩, t, secs, rfl, accepted, rfl⟩
  · rintro ⟨s, t, secs, rfl, accepted, rfl⟩
    obtain ⟨dated, left⟩ := dateTime_of_written accepted.dated
    exact ⟨t, dated, _, left, _, fraction_read accepted.digits (stops_zone accepted.zone), secs,
      offsetSecs_some.mpr ⟨s.zone, rfl, accepted.zone⟩, instant_accepted accepted⟩

theorem parseRfc3339_panic : parseRfc3339 raw = .panic p ↔ p = .boundary ∧ CutOffset raw := by
  simp only [parseRfc3339, Outcome.bind_panic, Outcome.ofOption_some]
  constructor
  · rintro (early | ⟨t, read, early | ⟨rest, left, early | ⟨⟨nanos, later⟩, cut, late⟩⟩⟩)
    · exact absurd early (dateTime_returns raw p)
    · exact absurd early (Outcome.ofOption_returns _ p)
    · exact absurd early (fraction_returns rest p)
    · obtain ⟨w, dated, rfl⟩ := written_of_dateTime read left
      obtain ⟨f, digits, rfl, rfl⟩ := fraction_some cut
      rcases late with offset | ⟨secs, offset, computed⟩
      · obtain ⟨boundary, inside⟩ := offsetSecs_panic.mp offset
        exact ⟨boundary, w, t, f, later, rfl, dated, digits, inside⟩
      · obtain ⟨z, rfl, reads⟩ := offsetSecs_some.mp offset
        have accepted : Spelling.Accepted ⟨w, f, z⟩ t secs := ⟨dated, digits, reads⟩
        rw [instant_accepted accepted] at computed
        cases computed
  · rintro ⟨rfl, w, t, f, rest, rfl, dated, digits, inside⟩
    obtain ⟨dated, left⟩ := dateTime_of_written dated
    exact .inr ⟨t, dated, .inr ⟨_, left, .inr ⟨_, fraction_read digits (stops_cutInside inside),
      .inl (offsetSecs_panic.mpr ⟨rfl, inside⟩)⟩⟩⟩

/-- A timestamp is read without a panic, unless its offset is cut inside a character. -/
theorem parseRfc3339_returns (raw : List Char) : (parseRfc3339 raw).Returns ↔ ¬ CutOffset raw := by
  constructor
  · exact fun returns cut => returns .boundary (parseRfc3339_panic.mpr ⟨rfl, cut⟩)
  · exact fun sound p panicked => sound (parseRfc3339_panic.mp panicked).2

theorem parseRfc3339_panics : ¬ ∀ raw, (parseRfc3339 raw).Returns := by
  intro sound
  refine sound "2024-01-01T00:00:00+€a".toList .boundary ?_
  decide +kernel

end Parsing

/-- Plain digits of a number. -/
structure Digits (size : Nat) (field : List Char) (v : Int) : Prop where
  size : field.length = size
  plain : ∀ c ∈ field, c.isDigit = true
  value : digitsValue field = v

/-- The day of a time. -/
def CivilTime.date (t : CivilTime) : Date := ⟨t.year, t.month.toNat, t.day.toNat⟩

/-- The documented fields of a date and a time of day. -/
structure Written.Documented (w : Written) (t : CivilTime) : Prop where
  year : Digits 4 w.year t.year
  month : Digits 2 w.month t.month
  day : Digits 2 w.day t.day
  valid : (CivilTime.date t).Valid
  separator : w.separator ∈ ['T', 't', ' ']
  hour : Digits 2 w.hour t.hour ∧ t.hour ≤ 23
  minute : Digits 2 w.minute t.minute ∧ t.minute ≤ 59
  second : Digits 2 w.second t.second ∧ t.second ≤ 60

/-- The documented zones and the seconds of their offsets. -/
inductive ZoneText : List Char → Int → Prop where
  | absent : ZoneText [] 0
  | utc {c : Char} (own : c ∈ ['Z', 'z']) : ZoneText [c] 0
  | colon {sign : Char} {hours minutes : List Char} {h m : Nat} (own : sign ∈ ['+', '-'])
      (hour : Digits 2 hours h ∧ h ≤ 23) (minute : Digits 2 minutes m ∧ m ≤ 59) :
      ZoneText (sign :: hours ++ ':' :: minutes) (signOf sign * (h * 3600 + m * 60))
  | compact {sign : Char} {hours minutes : List Char} {h m : Nat} (own : sign ∈ ['+', '-'])
      (hour : Digits 2 hours h ∧ h ≤ 23) (minute : Digits 2 minutes m ∧ m ≤ 59) :
      ZoneText (sign :: hours ++ minutes) (signOf sign * (h * 3600 + m * 60))

/-- A documented timestamp and the nanoseconds of its instant from the epoch. -/
def Documented (raw : List Char) (nanos : Int) : Prop :=
  ∃ (w : Written) (t : CivilTime) (f : Option (List Char)) (zone : List Char) (secs : Int),
    raw = w.text ++ (fractionText f ++ zone) ∧
      Written.Documented w t ∧ FractionDigits f ∧ ZoneText zone secs ∧
      nanos = ((CivilTime.date t).number * 86400 +
        (t.hour * 3600 + t.minute * 60 + min t.second 59 : Nat) - secs) * nanosPerSec +
          fractionValue f

def Signed (field : List Char) : Prop := field.head? = some '+' ∨ field.head? = some '-'

/-- A field has a sign, or the month does not have the day. -/
def Written.Loose (w : Written) (t : CivilTime) : Prop :=
  (∃ field ∈ [w.year, w.month, w.day, w.hour, w.minute, w.second], Signed field) ∨
    daysInMonth t.year t.month.toNat < t.day

/-- Something follows the zone, or a field of an offset is not two digits. -/
def Zone.Loose : Zone → Prop
  | .absent => False
  | .utc _ trailing => trailing ≠ []
  | .colon _ hours minutes => ∃ field ∈ [hours, minutes], Signed field ∨ field.length ≠ 2
  | .compact _ hours minutes => ∃ field ∈ [hours, minutes], Signed field ∨ field.length ≠ 2

/-- A text is read by a spelling that the grammar does not have. -/
def NearMiss (raw : List Char) : Prop := ∃ (s : Spelling) (t : CivilTime) (secs : Int),
  s.text = raw ∧ s.Accepted t secs ∧ (Written.Loose s.written t ∨ Zone.Loose s.zone)

section Grammar

variable {raw field : List Char} {size n : Nat} {v nanos : Int} {w w' : Written} {t t' : CivilTime}
  {z z' : Zone} {secs secs' : Int} {s s' : Spelling}

theorem digits_unsigned (digits : Digits size field v) : ¬ Signed field := by
  rintro (plus | minus)
  · exact absurd (digits.plain '+' (List.mem_of_head? plus)) (by decide)
  · exact absurd (digits.plain '-' (List.mem_of_head? minus)) (by decide)

theorem digits_byteLen (digits : Digits size field v) : byteLen field = size := by
  rw [byteLen_ascii fun c mem => digit_ascii (digits.plain c mem), digits.size]

theorem digits_small (digits : Digits size field v) (short : size ≤ 4) : 0 ≤ v ∧ v < 10000 := by
  have small := digitsValue_lt digits.plain
  have most : 10 ^ field.length ≤ 10 ^ 4 :=
    Nat.pow_le_pow_right (by decide) (digits.size.trans_le short)
  have value := digits.value
  omega

theorem digits_parseI64 (digits : Digits size field v) (some_digit : 1 ≤ size) (short : size ≤ 4) :
    byteLen field = size ∧ parseI64 field = some v := by
  have small := digits_small digits short
  have size := digits.size
  refine ⟨digits_byteLen digits, parseI64_some.mpr ⟨⟨by omega, by omega⟩, .inr ⟨field,
    digitsValue field, .inr rfl, unsigned_some.mpr ⟨?_, digits.plain, rfl⟩, digits.value.symm⟩⟩⟩
  exact List.ne_nil_of_length_pos (by omega)

theorem digits_parseU64 (digits : Digits size field n) (some_digit : 1 ≤ size) (short : size ≤ 4) :
    byteLen field = size ∧ parseU64 field = some n := by
  have small := digits_small digits short
  have size := digits.size
  have value : digitsValue field = n := Int.ofNat.inj digits.value
  have word : u64Max = 2 ^ 64 - 1 := rfl
  refine ⟨digits_byteLen digits, ?_⟩
  rw [← value]
  exact parseU64_digits digits.plain (List.ne_nil_of_length_pos (by omega)) (by omega)

/-- A number without a sign is plain digits. -/
theorem parseI64_digits (parsed : byteLen field = size ∧ parseI64 field = some v)
    (unsigned : ¬ Signed field) : Digits size field v := by
  obtain ⟨own, parsed⟩ := parsed
  obtain ⟨-, ⟨digits, n, rfl, -⟩ | ⟨digits, n, rfl | rfl, read, rfl⟩⟩ := parseI64_some.mp parsed
  · exact absurd (.inr rfl) unsigned
  · exact absurd (.inl rfl) unsigned
  · obtain ⟨-, plain, value⟩ := unsigned_some.mp read
    rw [byteLen_ascii fun c mem => digit_ascii (plain c mem)] at own
    exact ⟨own, plain, by rw [value]⟩

theorem parseU64_unsigned (parsed : byteLen field = size ∧ parseU64 field = some n)
    (unsigned : ¬ Signed field) : Digits size field n := by
  obtain ⟨own, parsed⟩ := parsed
  rw [parseU64, if_neg fun plus => unsigned (.inl plus)] at parsed
  obtain ⟨⟨-, plain, -⟩, value⟩ := Option.ite_none_right_eq_some.mp parsed
  rw [List.all_eq_true] at plain
  rw [byteLen_ascii fun c mem => digit_ascii (plain c mem)] at own
  exact ⟨own, plain, congrArg Nat.cast (Option.some.inj value)⟩

theorem written_documented :
    Written.Documented w t ↔ w.Dated t ∧ ¬ Written.Loose w t := by
  constructor
  · rintro ⟨year, month, day, valid, separator, ⟨hour, hour_le⟩, ⟨minute, minute_le⟩,
      ⟨second, second_le⟩⟩
    have month_value := digits_small month (by decide)
    have day_value := digits_small day (by decide)
    obtain ⟨some_month, last_month, some_day, last_day⟩ := valid
    have of_month : (CivilTime.date t).month = t.month.toNat := rfl
    have of_day : (CivilTime.date t).day = t.day.toNat := rfl
    have most : daysInMonth (CivilTime.date t).year (CivilTime.date t).month ≤ 31 := daysInMonth_le
    have inRange : t.InRange :=
      ⟨⟨by omega, by omega, by omega, by omega⟩, hour_le, minute_le, second_le⟩
    refine ⟨⟨digits_parseI64 year (by decide) (by decide),
      digits_parseI64 month (by decide) (by decide), digits_parseI64 day (by decide) (by decide),
      separator, digits_parseU64 hour (by decide) (by decide),
      digits_parseU64 minute (by decide) (by decide),
      digits_parseU64 second (by decide) (by decide), inRange⟩, ?_⟩
    rintro (⟨field, mem, signed⟩ | beyond)
    · simp only [List.mem_cons, List.not_mem_nil, or_false] at mem
      rcases mem with rfl | rfl | rfl | rfl | rfl | rfl
      · exact digits_unsigned year signed
      · exact digits_unsigned month signed
      · exact digits_unsigned day signed
      · exact digits_unsigned hour signed
      · exact digits_unsigned minute signed
      · exact digits_unsigned second signed
    · change (daysInMonth (CivilTime.date t).year (CivilTime.date t).month : Int) < _ at beyond
      omega
  · rintro ⟨⟨year, month, day, separator, hour, minute, second, inRange⟩, strict⟩
    rw [Written.Loose, not_or, not_exists] at strict
    obtain ⟨unsigned, exists_day⟩ := strict
    obtain ⟨⟨some_month, last_month, some_day, last_day⟩, hour_le, minute_le, second_le⟩ := inRange
    have plain : ∀ field ∈ [w.year, w.month, w.day, w.hour, w.minute, w.second], ¬ Signed field :=
      fun field mem signed => unsigned field ⟨mem, signed⟩
    simp only [List.forall_mem_cons] at plain
    obtain ⟨y, mo, d, h, mi, s, -⟩ := plain
    have valid : (CivilTime.date t).Valid := by
      refine ⟨?_, ?_, ?_, ?_⟩
      · exact (Int.le_toNat (by omega)).mpr some_month
      · exact Int.toNat_le.mpr last_month
      · exact (Int.le_toNat (by omega)).mpr some_day
      · exact Int.toNat_le.mpr (not_lt.mp exists_day)
    exact ⟨parseI64_digits year y, parseI64_digits month mo, parseI64_digits day d, valid, separator,
      ⟨parseU64_unsigned hour h, hour_le⟩, ⟨parseU64_unsigned minute mi, minute_le⟩,
      ⟨parseU64_unsigned second s, second_le⟩⟩

theorem digits_offset (sign : Char) {hours minutes : List Char} {h m : Nat}
    (hour : Digits 2 hours h ∧ h ≤ 23) (minute : Digits 2 minutes m ∧ m ≤ 59) :
    Offset sign hours minutes (signOf sign * (h * 3600 + m * 60)) ∧
      ¬ ∃ field ∈ [hours, minutes], Signed field ∨ field.length ≠ 2 := by
  refine ⟨⟨h, m, (digits_parseI64 hour.1 (by decide) (by decide)).2,
    (digits_parseI64 minute.1 (by decide) (by decide)).2, ⟨⟨by omega, by omega⟩, by omega, by omega⟩,
    rfl⟩, ?_⟩
  rintro ⟨field, mem, loose⟩
  rcases List.mem_pair.mp mem with rfl | rfl
  · exact loose.elim (digits_unsigned hour.1) (fun other => other hour.1.size)
  · exact loose.elim (digits_unsigned minute.1) (fun other => other minute.1.size)

/-- The fields of an offset that is not loose are two digits each. -/
theorem offset_digits {sign : Char} {hours minutes : List Char}
    (offset : Offset sign hours minutes secs)
    (strict : ¬ ∃ field ∈ [hours, minutes], Signed field ∨ field.length ≠ 2) :
    ∃ h m : Nat, (Digits 2 hours h ∧ h ≤ 23) ∧ (Digits 2 minutes m ∧ m ≤ 59) ∧
      secs = signOf sign * (h * 3600 + m * 60) := by
  obtain ⟨h, m, hour, minute, ⟨⟨some_hour, last_hour⟩, some_minute, last_minute⟩, rfl⟩ := offset
  have plain : ∀ field ∈ [hours, minutes], ¬ (Signed field ∨ field.length ≠ 2) :=
    fun field mem loose => strict ⟨field, mem, loose⟩
  have read : ∀ field ∈ [hours, minutes], ∀ v, parseI64 field = some v → Digits 2 field v := by
    intro field mem v parsed
    have unsigned := not_or.mp (plain field mem)
    have digits := parseI64_digits ⟨rfl, parsed⟩ unsigned.1
    exact ⟨not_not.mp unsigned.2, digits.plain, digits.value⟩
  have hour := read hours List.mem_cons_self h hour
  have minute := read minutes (List.mem_cons_of_mem _ List.mem_cons_self) m minute
  have hour_cast := Int.toNat_of_nonneg some_hour
  have minute_cast := Int.toNat_of_nonneg some_minute
  refine ⟨h.toNat, m.toNat, ⟨?_, by omega⟩, ⟨?_, by omega⟩, ?_⟩
  · rwa [hour_cast]
  · rwa [minute_cast]
  · rw [hour_cast, minute_cast]

theorem zoneText_iff {zone : List Char} :
    ZoneText zone secs ↔ ∃ z : Zone, z.text = zone ∧ z.Reads secs ∧ ¬ Zone.Loose z := by
  have colonless : ∀ field v, Digits 2 field v → ':' ∉ field :=
    fun field v digits mem => absurd (digits.plain ':' mem) (by decide)
  constructor
  · intro documented
    cases documented with
    | absent => exact ⟨.absent, rfl, rfl, not_false⟩
    | @utc c own => exact ⟨.utc c [], rfl, ⟨own, rfl⟩, not_not.mpr rfl⟩
    | @colon sign hours minutes h m own hour minute =>
      obtain ⟨offset, strict⟩ := digits_offset sign hour minute
      exact ⟨.colon sign hours minutes, rfl, ⟨own, colonless _ _ hour.1, offset⟩, strict⟩
    | @compact sign hours minutes h m own hour minute =>
      obtain ⟨offset, strict⟩ := digits_offset sign hour minute
      exact ⟨.compact sign hours minutes, rfl, ⟨own, ⟨colonless _ _ hour.1, colonless _ _ minute.1⟩,
        ⟨digits_byteLen hour.1, digits_byteLen minute.1⟩, offset⟩, strict⟩
  · rintro ⟨z, rfl, reads, strict⟩
    cases z with
    | absent =>
      obtain rfl : secs = 0 := reads
      exact .absent
    | utc c trailing =>
      obtain ⟨own, rfl⟩ := reads
      obtain rfl : trailing = [] := not_not.mp strict
      exact .utc own
    | colon sign hours minutes =>
      obtain ⟨own, -, offset⟩ := reads
      obtain ⟨h, m, hour, minute, rfl⟩ := offset_digits offset strict
      exact .colon own hour minute
    | compact sign hours minutes =>
      obtain ⟨own, -, -, offset⟩ := reads
      obtain ⟨h, m, hour, minute, rfl⟩ := offset_digits offset strict
      exact .compact own hour minute

/-- The grammar has the accepted spellings that are not loose. -/
theorem documented_iff : Documented raw nanos ↔ ∃ (s : Spelling) (t : CivilTime) (secs : Int),
    s.text = raw ∧ s.Accepted t secs ∧ nanos = nanosOf t (fractionValue s.fraction) secs ∧
      ¬ (Written.Loose s.written t ∨ Zone.Loose s.zone) := by
  constructor
  · rintro ⟨w, t, f, zone, secs, rfl, fields, digits, own, rfl⟩
    obtain ⟨z, rfl, reads, strict_zone⟩ := zoneText_iff.mp own
    obtain ⟨dated, strict⟩ := written_documented.mp fields
    refine ⟨⟨w, f, z⟩, t, secs, rfl, ⟨dated, digits, reads⟩, ?_, not_or.mpr ⟨strict, strict_zone⟩⟩
    rw [number_march fields.valid]
    rfl
  · rintro ⟨s, t, secs, rfl, ⟨dated, digits, reads⟩, rfl, strict⟩
    obtain ⟨strict, strict_zone⟩ := not_or.mp strict
    have fields := written_documented.mpr ⟨dated, strict⟩
    refine ⟨s.written, t, s.fraction, s.zone.text, secs, rfl, fields, digits,
      zoneText_iff.mpr ⟨s.zone, rfl, reads, strict_zone⟩, ?_⟩
    rw [number_march fields.valid]
    rfl

theorem written_unique {rest rest' : List Char} (dated : w.Dated t) (dated' : w'.Dated t')
    (same : w.text ++ rest = w'.text ++ rest') : w = w' ∧ t = t' ∧ rest = rest' := by
  have sizes := dated
  have sizes' := dated'
  obtain ⟨⟨y, -⟩, ⟨mo, -⟩, ⟨d, -⟩, -, ⟨h, -⟩, ⟨mi, -⟩, ⟨s, -⟩, -⟩ := sizes
  obtain ⟨⟨y', -⟩, ⟨mo', -⟩, ⟨d', -⟩, -, ⟨h', -⟩, ⟨mi', -⟩, ⟨s', -⟩, -⟩ := sizes'
  have whole := same
  simp only [Written.text, List.append_assoc, List.cons_append] at whole
  obtain ⟨year, whole⟩ := append_cancel whole (y.trans y'.symm)
  obtain ⟨month, whole⟩ := append_cancel (List.cons.inj whole).2 (mo.trans mo'.symm)
  obtain ⟨day, whole⟩ := append_cancel (List.cons.inj whole).2 (d.trans d'.symm)
  obtain ⟨separator, whole⟩ := List.cons.inj whole
  obtain ⟨hour, whole⟩ := append_cancel whole (h.trans h'.symm)
  obtain ⟨minute, whole⟩ := append_cancel (List.cons.inj whole).2 (mi.trans mi'.symm)
  obtain ⟨second, rfl⟩ := append_cancel (List.cons.inj whole).2 (s.trans s'.symm)
  have same_time : dateTime (w.text ++ rest) = .some t := (dateTime_of_written dated).1
  rw [same, (dateTime_of_written dated').1] at same_time
  refine ⟨?_, (Outcome.some.inj same_time).symm, rfl⟩
  cases w
  cases w'
  simp_all

theorem zone_unique (reads : z.Reads secs) (reads' : z'.Reads secs') (same : z.text = z'.text) :
    z = z' := by
  cases z with
  | absent =>
    cases z' with
    | absent => rfl
    | utc => cases same
    | colon => cases same
    | compact => cases same
  | utc c trailing =>
    cases z' with
    | absent => cases same
    | utc =>
      obtain ⟨rfl, rfl⟩ := List.cons.inj same
      rfl
    | colon =>
      obtain ⟨rfl, -⟩ := List.cons.inj same
      exact absurd reads'.1 (utc_unsigned _ reads.1)
    | compact =>
      obtain ⟨rfl, -⟩ := List.cons.inj same
      exact absurd reads'.1 (utc_unsigned _ reads.1)
  | colon sign hours minutes =>
    obtain ⟨own, absent, -⟩ := reads
    cases z' with
    | absent => cases same
    | utc =>
      obtain ⟨rfl, -⟩ := List.cons.inj same
      exact absurd own (utc_unsigned _ reads'.1)
    | colon sign' hours' minutes' =>
      obtain ⟨rfl, -⟩ := List.cons.inj same
      have body : hours ++ ':' :: minutes = hours' ++ ':' :: minutes' := (List.cons.inj same).2
      have cut : splitOnce ':' (hours ++ ':' :: minutes) = some (hours, minutes) :=
        splitOnce_some.mpr ⟨rfl, absent⟩
      rw [splitOnce_some.mpr ⟨body, reads'.2.1⟩] at cut
      cases cut
      rfl
    | compact sign' hours' minutes' =>
      have body : hours ++ ':' :: minutes = hours' ++ minutes' := (List.cons.inj same).2
      have colon : ':' ∈ hours' ++ minutes' := by
        rw [← body]
        exact List.mem_append_right _ List.mem_cons_self
      exact absurd colon (List.not_mem_append reads'.2.1.1 reads'.2.1.2)
  | compact sign hours minutes =>
    obtain ⟨own, ⟨no_hour, no_minute⟩, ⟨two, -⟩, -⟩ := reads
    cases z' with
    | absent => cases same
    | utc =>
      obtain ⟨rfl, -⟩ := List.cons.inj same
      exact absurd own (utc_unsigned _ reads'.1)
    | colon sign' hours' minutes' =>
      have body : hours ++ minutes = hours' ++ ':' :: minutes' := (List.cons.inj same).2
      have colon : ':' ∈ hours ++ minutes := by
        rw [body]
        exact List.mem_append_right _ List.mem_cons_self
      exact absurd colon (List.not_mem_append no_hour no_minute)
    | compact sign' hours' minutes' =>
      obtain ⟨rfl, body⟩ := List.cons.inj same
      obtain ⟨rfl, rfl⟩ := append_cancel body (two.trans reads'.2.2.1.1.symm)
      rfl

/-- A text has one accepted spelling at most. -/
theorem spelling_unique (accepted : s.Accepted t secs) (accepted' : s'.Accepted t' secs')
    (same : s.text = s'.text) : s = s' ∧ t = t' := by
  obtain ⟨written, time, rest⟩ := written_unique accepted.dated accepted'.dated same
  have cut := fraction_read accepted.digits (stops_zone accepted.zone)
  rw [rest, fraction_read accepted'.digits (stops_zone accepted'.zone)] at cut
  have zone_text := (Prod.mk.inj (Outcome.some.inj cut)).2.symm
  have zone := zone_unique accepted.zone accepted'.zone zone_text
  rw [zone_text] at rest
  have fraction := List.append_cancel_right rest
  refine ⟨?_, time⟩
  cases s with
  | mk w f z =>
    cases s' with
    | mk w' f' z' =>
      change w = w' at written
      change z = z' at zone
      subst written zone
      cases f <;> cases f' <;> cases fraction <;> rfl

theorem not_documented (accepted : s.Accepted t secs)
    (loose : Written.Loose s.written t ∨ Zone.Loose s.zone) : ¬ Documented s.text nanos := by
  intro documented
  obtain ⟨s', t', secs', same, accepted', -, strict⟩ := documented_iff.mp documented
  obtain ⟨rfl, rfl⟩ := spelling_unique accepted accepted' same.symm
  exact strict loose

/-- Without near misses, the texts of the grammar are read as their instants and no others are
read. -/
theorem parseRfc3339_documented (raw : List Char) :
    (∀ nanos, parseRfc3339 raw = .some nanos ↔ Documented raw nanos) ↔ ¬ NearMiss raw := by
  constructor
  · rintro exact_texts ⟨s, t, secs, rfl, accepted, loose⟩
    have read := parseRfc3339_some.mpr ⟨s, t, secs, rfl, accepted, rfl⟩
    exact not_documented accepted loose ((exact_texts _).mp read)
  · intro no_miss nanos
    rw [parseRfc3339_some, documented_iff]
    constructor
    · rintro ⟨s, t, secs, text, accepted, value⟩
      exact ⟨s, t, secs, text, accepted, value,
        fun loose => no_miss ⟨s, t, secs, text, accepted, loose⟩⟩
    · rintro ⟨s, t, secs, text, accepted, value, -⟩
      exact ⟨s, t, secs, text, accepted, value⟩

theorem parseRfc3339_trailing : ¬ ∀ raw, (parseRfc3339 raw).Returns →
    ∀ nanos, parseRfc3339 raw = .some nanos ↔ Documented raw nanos := by
  intro exact_texts
  have read : parseRfc3339 "2024-01-01T00:00:00Zjunk".toList = .some 1704067200000000000 := by
    decide +kernel
  have returns : (parseRfc3339 "2024-01-01T00:00:00Zjunk".toList).Returns := by
    rw [read]
    exact Outcome.some_returns _
  have accepted : Spelling.Accepted ⟨⟨"2024".toList, "01".toList, "01".toList, 'T', "00".toList,
      "00".toList, "00".toList⟩, none, .utc 'Z' "junk".toList⟩ ⟨2024, 1, 1, 0, 0, 0⟩ 0 :=
    ⟨⟨by decide +kernel, by decide +kernel, by decide +kernel, by decide, by decide +kernel,
      by decide +kernel, by decide +kernel, by decide⟩, nofun, by decide, rfl⟩
  have trailing : Zone.Loose (.utc 'Z' "junk".toList) := by
    change "junk".toList ≠ []
    decide +kernel
  exact not_documented accepted (.inr trailing) ((exact_texts _ returns _).mp read)

end Grammar

end TimestampGrammar
