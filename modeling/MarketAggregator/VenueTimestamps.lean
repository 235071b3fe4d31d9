import MarketAggregator.CivilDays
import MarketAggregator.Utf8Text

/-!
# Timestamps of venues

A timestamp is cut into fields by byte positions, and its fields are read as signed or
unsigned integers. A text that is not a timestamp is no error. What can go wrong is an index
past the end, a cut inside a character and an operation that overflows.
-/

namespace VenueTimestamps

open ArchiveKeys (parseU64)
open Calendar CivilDays Clocks Utf8Text

inductive Panic where
  | index
  | boundary
  | overflow
  deriving DecidableEq, Repr

inductive Outcome (T : Type) where
  | panic (p : Panic)
  | none
  | some (a : T)
  deriving DecidableEq

namespace Outcome

variable {S T : Type}

def bind : Outcome S → (S → Outcome T) → Outcome T
  | panic p, _ => panic p
  | none, _ => none
  | some a, f => f a

instance : Monad Outcome where
  pure := some
  bind := bind

/-- The value of an option, or else no timestamp. -/
def ofOption : Option S → Outcome S
  | .none => none
  | .some a => some a

/-- The result of an operation, unless it overflows. -/
def checked : Option S → Outcome S
  | .none => panic .overflow
  | .some a => some a

def require (p : Prop) [Decidable p] : Outcome Unit := if p then some () else none

def Returns (o : Outcome S) : Prop := ∀ p, o ≠ panic p

variable {o : Outcome S} {f : S → Outcome T} {a : S} {b : T} {p : Panic} {q : Prop} [Decidable q]

theorem bind_some : o >>= f = some b ↔ ∃ a, o = some a ∧ f a = some b := by
  cases o <;> simp [Bind.bind, bind]

theorem bind_panic : o >>= f = panic p ↔ o = panic p ∨ ∃ a, o = some a ∧ f a = panic p := by
  cases o <;> simp [Bind.bind, bind]

theorem ofOption_some {x : Option S} : ofOption x = some a ↔ x = .some a := by
  cases x <;> simp [ofOption]

theorem checked_some {x : Option S} : checked x = some a ↔ x = .some a := by
  cases x <;> simp [checked]

theorem require_some {u : Unit} : require q = some u ↔ q := by
  by_cases h : q <;> simp [require, h]

theorem ofOption_returns (x : Option S) : (ofOption x).Returns := by
  cases x <;> exact nofun

theorem require_returns : (require q).Returns := by
  intro p
  by_cases h : q <;> simp [require, h]

theorem some_returns (a : S) : (some a).Returns := nofun

theorem bind_returns (first : o.Returns) (next : ∀ a, o = some a → (f a).Returns) :
    (o >>= f).Returns := by
  intro p panicked
  rcases bind_panic.mp panicked with early | ⟨a, done, late⟩
  · exact first p early
  · exact next a done p late

end Outcome

open Outcome (ofOption checked require)

def digitsValue (digits : List Char) : Nat := Nat.ofDigitChars 10 digits 0

def unsigned (digits : List Char) : Option Nat :=
  if digits ≠ [] ∧ digits.all Char.isDigit = true then some (digitsValue digits) else none

/-- A decimal number of 64 bits, with or without a sign. -/
def parseI64 (s : List Char) : Option Int :=
  if s.head? = some '-' then (unsigned s.tail).bind (fun n => i64 (-n))
  else (unsigned (if s.head? = some '+' then s.tail else s)).bind (fun n => i64 n)

def parseU32 (s : List Char) : Option Nat :=
  (parseU64 s).bind (fun n => if n < 2 ^ 32 then some n else none)

def byteAt (raw : List Char) (i : Nat) : Outcome UInt8 :=
  match (bytes raw)[i]? with
  | some b => .some b
  | none => .panic .index

def expectByte (raw : List Char) (i : Nat) (allowed : List Char) : Outcome Unit := do
  let b ← byteAt raw i
  require (b ∈ allowed.map Char.toUInt8)

structure CivilTime where
  year : Int
  month : Int
  day : Int
  hour : Nat
  minute : Nat
  second : Nat

/-- Whether the fields are in range. The day may be one that the month does not have. -/
def CivilTime.InRange (t : CivilTime) : Prop :=
  (1 ≤ t.month ∧ t.month ≤ 12 ∧ 1 ≤ t.day ∧ t.day ≤ 31) ∧
    t.hour ≤ 23 ∧ t.minute ≤ 59 ∧ t.second ≤ 60

instance (t : CivilTime) : Decidable t.InRange := inferInstanceAs (Decidable (_ ∧ _))

def dateTime (raw : List Char) : Outcome CivilTime := do
  require (19 ≤ byteLen raw)
  expectByte raw 4 ['-']
  expectByte raw 7 ['-']
  expectByte raw 10 ['T', 't', ' ']
  expectByte raw 13 [':']
  expectByte raw 16 [':']
  let year ← ofOption ((getRange 0 4 raw).bind parseI64)
  let month ← ofOption ((getRange 5 7 raw).bind parseI64)
  let day ← ofOption ((getRange 8 10 raw).bind parseI64)
  let hour ← ofOption ((getRange 11 13 raw).bind parseU64)
  let minute ← ofOption ((getRange 14 16 raw).bind parseU64)
  let second ← ofOption ((getRange 17 19 raw).bind parseU64)
  require (CivilTime.InRange ⟨year, month, day, hour, minute, second⟩)
  .some ⟨year, month, day, hour, minute, second⟩

/-- Up to nine digits, filled up with zeros. -/
def scale (digits : List Char) : List Char := digits ++ List.replicate (9 - byteLen digits) '0'

/-- The nanoseconds of a fraction and what follows it. -/
def fraction (rest : List Char) : Outcome (Nat × List Char) :=
  match rest with
  | '.' :: afterDot => do
    let digits := afterDot.takeWhile Char.isDigit
    require (digits ≠ [])
    let later ← ofOption (getFrom (1 + byteLen digits) rest)
    let first ← ofOption (getTo (min 9 (byteLen digits)) digits)
    let subsecNanos ← ofOption (parseU32 (scale first))
    .some (subsecNanos, later)
  | _ => .some (0, rest)

def splitAt (n : Nat) (s : List Char) : Outcome (List Char × List Char) :=
  match splitBytes n s with
  | some parts => .some parts
  | none => .panic .boundary

/-- The hours and minutes of an offset, with a colon or without. -/
def offsetParts (body : List Char) : Outcome (List Char × List Char) :=
  match splitOnce ':' body with
  | some parts => .some parts
  | none => if byteLen body = 4 then splitAt 2 body else .none

def signedOffset (sign : Int) (rest : List Char) : Outcome Int := do
  let body ← ofOption (getFrom 1 rest)
  let (hours, minutes) ← offsetParts body
  let h ← ofOption (parseI64 hours)
  let m ← ofOption (parseI64 minutes)
  require ((0 ≤ h ∧ h ≤ 23) ∧ 0 ≤ m ∧ m ≤ 59)
  checked (do mul sign (← add (← mul h 3600) (← mul m 60)))

def offsetSecs (rest : List Char) : Outcome Int :=
  match (bytes rest).head? with
  | none => .some 0
  | some b =>
    if b = 'Z'.toUInt8 ∨ b = 'z'.toUInt8 then .some 0
    else if b = '+'.toUInt8 then signedOffset 1 rest
    else if b = '-'.toUInt8 then signedOffset (-1) rest
    else .none

def u64 (n : Nat) : Option Nat := if n ≤ u64Max then some n else none

/-- An instant by its nanoseconds from the epoch, if its seconds have 64 bits. -/
def systemTime (nanos : Int) : Option Int :=
  if I64 (nanos / nanosPerSec) then some nanos else none

def instant (t : CivilTime) (subsecNanos : Nat) (offset : Int) : Outcome Int := do
  let second := min t.second 59
  let days ← checked (daysFromCivil t.year t.month t.day)
  let ofDay ← checked (do
    u64 ((← u64 ((← u64 (t.hour * 3600)) + (← u64 (t.minute * 60)))) + second))
  let utcSecs ← checked (do sub (← add (← mul days 86400) ofDay) offset)
  let base ← ofOption (systemTime (utcSecs * nanosPerSec))
  ofOption (systemTime (base + subsecNanos))

def parseRfc3339 (raw : List Char) : Outcome Int := do
  let t ← dateTime raw
  let rest ← ofOption (getFrom 19 raw)
  let (subsecNanos, rest) ← fraction rest
  let offset ← offsetSecs rest
  instant t subsecNanos offset

example : parseRfc3339 "2024-01-01T00:00:00.5+01:00".toList =
    .some (1704063600500000000) := by decide +kernel

example : parseRfc3339 "2024-01-01T00:00:00+€a".toList = .panic .boundary := by decide +kernel

/-- The characters of a date and a time of day, by field. -/
structure Written where
  year : List Char
  month : List Char
  day : List Char
  separator : Char
  hour : List Char
  minute : List Char
  second : List Char

def Written.text (w : Written) : List Char :=
  w.year ++ '-' :: w.month ++ '-' :: w.day ++ w.separator :: w.hour ++ ':' :: w.minute ++
    ':' :: w.second

/-- The fields are read as numbers in range. -/
structure Written.Dated (w : Written) (t : CivilTime) : Prop where
  year : byteLen w.year = 4 ∧ parseI64 w.year = some t.year
  month : byteLen w.month = 2 ∧ parseI64 w.month = some t.month
  day : byteLen w.day = 2 ∧ parseI64 w.day = some t.day
  separator : w.separator ∈ ['T', 't', ' ']
  hour : byteLen w.hour = 2 ∧ parseU64 w.hour = some t.hour
  minute : byteLen w.minute = 2 ∧ parseU64 w.minute = some t.minute
  second : byteLen w.second = 2 ∧ parseU64 w.second = some t.second
  inRange : t.InRange

section DateTimes

variable {raw a r rest : List Char} {n m : Nat} {allowed : List Char} {t : CivilTime} {w : Written}
  {T : Type} {parse : List Char → Option T} {value : T}

theorem byteAt_some {i : Nat} {b : UInt8} : byteAt raw i = .some b ↔ (bytes raw)[i]? = some b := by
  rw [byteAt]
  cases (bytes raw)[i]? <;> simp

theorem expectByte_append (ascii : ∀ c ∈ allowed, c.toNat < 128) (size : byteLen a = n) :
    expectByte (a ++ r) n allowed = .some () ↔ ∃ c later, r = c :: later ∧ c ∈ allowed := by
  rw [expectByte, Outcome.bind_some]
  subst size
  constructor
  · rintro ⟨b, at_n, among⟩
    rw [byteAt_some, bytes_at] at at_n
    obtain ⟨c, mem, rfl⟩ := List.mem_map.mp (Outcome.require_some.mp among)
    obtain ⟨later, rfl⟩ := List.head?_eq_some_iff.mp ((head_bytes (ascii c mem)).mp at_n)
    exact ⟨c, later, rfl, mem⟩
  · rintro ⟨c, later, rfl, mem⟩
    refine ⟨c.toUInt8, ?_, Outcome.require_some.mpr (List.mem_map_of_mem mem)⟩
    rw [byteAt_some, bytes_at]
    exact (head_bytes (ascii c mem)).mpr rfl

theorem field_append (size : byteLen a = n) (order : n ≤ m) :
    ofOption ((getRange n m (a ++ r)).bind parse) = .some value ↔
      ∃ x later, r = x ++ later ∧ byteLen x = m - n ∧ parse x = some value := by
  rw [Outcome.ofOption_some, Option.bind_eq_some_iff]
  constructor
  · rintro ⟨x, read, parsed⟩
    obtain ⟨later, rfl, own⟩ := (getRange_append size order).mp read
    exact ⟨x, later, rfl, own, parsed⟩
  · rintro ⟨x, later, rfl, own, parsed⟩
    exact ⟨x, (getRange_append size order).mpr ⟨later, rfl, own⟩, parsed⟩

/-- A field and the character behind it are cut off what follows a beginning. -/
theorem cut_field (whole : raw = a ++ r) (size : byteLen a = n) (order : n ≤ m)
    (ascii : ∀ c ∈ allowed, c.toNat < 128)
    (read : ofOption ((getRange n m raw).bind parse) = .some value)
    (expected : expectByte raw m allowed = .some ()) :
    ∃ x c later, raw = a ++ x ++ [c] ++ later ∧ byteLen (a ++ x ++ [c]) = m + 1 ∧
      byteLen x = m - n ∧ parse x = some value ∧ c ∈ allowed := by
  subst whole
  obtain ⟨x, r, rfl, own, parsed⟩ := (field_append size order).mp read
  have both : byteLen (a ++ x) = m := by
    rw [byteLen_append]
    omega
  rw [← List.append_assoc] at expected
  obtain ⟨c, later, rfl, among⟩ := (expectByte_append ascii both).mp expected
  refine ⟨x, c, later, by simp, ?_, own, parsed, among⟩
  rw [byteLen_append, both, byteLen_ascii (List.forall_mem_singleton.mpr (ascii c among))]
  rfl

theorem hyphen_ascii : ∀ c ∈ ['-'], c.toNat < 128 := by simp

theorem colon_ascii : ∀ c ∈ [':'], c.toNat < 128 := by simp

theorem separators_ascii : ∀ c ∈ ['T', 't', ' '], c.toNat < 128 := by simp

theorem dateTime_iff : dateTime raw = .some t ↔ 19 ≤ byteLen raw ∧
    expectByte raw 4 ['-'] = .some () ∧ expectByte raw 7 ['-'] = .some () ∧
    expectByte raw 10 ['T', 't', ' '] = .some () ∧ expectByte raw 13 [':'] = .some () ∧
    expectByte raw 16 [':'] = .some () ∧
    ofOption ((getRange 0 4 raw).bind parseI64) = .some t.year ∧
    ofOption ((getRange 5 7 raw).bind parseI64) = .some t.month ∧
    ofOption ((getRange 8 10 raw).bind parseI64) = .some t.day ∧
    ofOption ((getRange 11 13 raw).bind parseU64) = .some t.hour ∧
    ofOption ((getRange 14 16 raw).bind parseU64) = .some t.minute ∧
    ofOption ((getRange 17 19 raw).bind parseU64) = .some t.second ∧ t.InRange := by
  simp only [dateTime, Outcome.bind_some, Outcome.require_some, Outcome.some.injEq]
  constructor
  · rintro ⟨_, long, _, e4, _, e7, _, e10, _, e13, _, e16, year, y, month, mo, day, d, hour, h,
      minute, mi, second, s, _, inRange, rfl⟩
    exact ⟨long, e4, e7, e10, e13, e16, y, mo, d, h, mi, s, inRange⟩
  · rintro ⟨long, e4, e7, e10, e13, e16, y, mo, d, h, mi, s, inRange⟩
    exact ⟨(), long, (), e4, (), e7, (), e10, (), e13, (), e16, _, y, _, mo, _, d, _, h, _, mi, _,
      s, (), inRange, rfl⟩

/-- A date and time is accepted as its fields are, and the rest is what follows them. -/
theorem written_of_dateTime (accepted : dateTime raw = .some t)
    (left : getFrom 19 raw = some rest) : ∃ w : Written, w.Dated t ∧ raw = w.text ++ rest := by
  obtain ⟨-, e4, e7, e10, e13, e16, year, month, day, hour, minute, second, inRange⟩ :=
    dateTime_iff.mp accepted
  have start : raw = [] ++ raw := rfl
  obtain ⟨y, c, r, whole, size, y', year, one⟩ :=
    cut_field start rfl (by decide) hyphen_ascii year e4
  obtain rfl := List.mem_singleton.mp one
  obtain ⟨mo, c, r, whole, size, mo', month, one⟩ :=
    cut_field whole size (by decide) hyphen_ascii month e7
  obtain rfl := List.mem_singleton.mp one
  obtain ⟨d, separator, r, whole, size, d', day, among⟩ :=
    cut_field whole size (by decide) separators_ascii day e10
  obtain ⟨h, c, r, whole, size, h', hour, one⟩ :=
    cut_field whole size (by decide) colon_ascii hour e13
  obtain rfl := List.mem_singleton.mp one
  obtain ⟨mi, c, r, whole, size, mi', minute, one⟩ :=
    cut_field whole size (by decide) colon_ascii minute e16
  obtain rfl := List.mem_singleton.mp one
  rw [whole] at second
  obtain ⟨s, r, rfl, s', second⟩ := (field_append size (by decide)).mp second
  refine ⟨⟨y, mo, d, separator, h, mi, s⟩, ⟨⟨y', year⟩, ⟨mo', month⟩, ⟨d', day⟩, among, ⟨h', hour⟩,
    ⟨mi', minute⟩, ⟨s', second⟩, inRange⟩, ?_⟩
  rw [whole, ← List.append_assoc] at left ⊢
  obtain ⟨first, split, own⟩ := getFrom_iff.mp left
  obtain ⟨-, rfl⟩ := append_cancel split (by rw [byteLen_append]; omega)
  simp [Written.text]

theorem read_field {x : List Char} {c : Char} (m : Nat) (starts : a ++ x ++ [c] <+: raw)
    (size : byteLen a = n) (own : byteLen x = m - n) (order : n ≤ m)
    (ascii : ∀ c ∈ allowed, c.toNat < 128) (parsed : parse x = some value) (among : c ∈ allowed) :
    byteLen (a ++ x ++ [c]) = m + 1 ∧ expectByte raw m allowed = .some () ∧
      ofOption ((getRange n m raw).bind parse) = .some value := by
  obtain ⟨later, rfl⟩ := starts
  have both : byteLen (a ++ x) = m := by
    rw [byteLen_append]
    omega
  have one : byteLen [c] = 1 := byteLen_ascii (List.forall_mem_singleton.mpr (ascii c among))
  refine ⟨?_, ?_, ?_⟩
  · rw [byteLen_append, both, one]
  · rw [List.append_assoc]
    exact (expectByte_append ascii both).mpr ⟨c, later, rfl, among⟩
  · rw [List.append_assoc, List.append_assoc]
    exact (field_append size order).mpr ⟨x, _, rfl, own, parsed⟩

theorem shorter {x : List Char} {c : Char} (starts : a ++ x ++ [c] <+: raw) : a <+: raw :=
  ((List.prefix_append a x).trans (List.prefix_append _ _)).trans starts

theorem dateTime_of_written (dated : w.Dated t) :
    dateTime (w.text ++ rest) = .some t ∧ getFrom 19 (w.text ++ rest) = some rest := by
  obtain ⟨⟨y', year⟩, ⟨mo', month⟩, ⟨d', day⟩, separator, ⟨h', hour⟩, ⟨mi', minute⟩, ⟨s', second⟩,
    inRange⟩ := dated
  generalize whole : w.text ++ rest = raw
  have cut : raw = [] ++ w.year ++ ['-'] ++ w.month ++ ['-'] ++ w.day ++ [w.separator] ++ w.hour ++
      [':'] ++ w.minute ++ [':'] ++ (w.second ++ rest) := by
    rw [← whole]
    simp [Written.text]
  have p16 := List.prefix_append ([] ++ w.year ++ ['-'] ++ w.month ++ ['-'] ++ w.day ++
    [w.separator] ++ w.hour ++ [':'] ++ w.minute ++ [':']) (w.second ++ rest)
  rw [← cut] at p16
  have p13 := shorter p16
  have p10 := shorter p13
  have p7 := shorter p10
  have p4 := shorter p7
  have hyphen : '-' ∈ ['-'] := List.mem_singleton.mpr rfl
  have colon : ':' ∈ [':'] := List.mem_singleton.mpr rfl
  obtain ⟨s4, e4, year⟩ := read_field 4 p4 byteLen_nil y' (by decide) hyphen_ascii year hyphen
  obtain ⟨s7, e7, month⟩ := read_field 7 p7 s4 mo' (by decide) hyphen_ascii month hyphen
  obtain ⟨s10, e10, day⟩ := read_field 10 p10 s7 d' (by decide) separators_ascii day separator
  obtain ⟨s13, e13, hour⟩ := read_field 13 p13 s10 h' (by decide) colon_ascii hour colon
  obtain ⟨s16, e16, minute⟩ := read_field 16 p16 s13 mi' (by decide) colon_ascii minute colon
  have second : ofOption ((getRange 17 19 raw).bind parseU64) = .some t.second := by
    rw [cut]
    exact (field_append s16 (by decide)).mpr ⟨w.second, rest, rfl, s', second⟩
  rw [← List.append_assoc] at cut
  have size : byteLen ([] ++ w.year ++ ['-'] ++ w.month ++ ['-'] ++ w.day ++ [w.separator] ++
      w.hour ++ [':'] ++ w.minute ++ [':'] ++ w.second) = 19 := by
    rw [byteLen_append, s16, s']
  refine ⟨dateTime_iff.mpr ⟨?_, e4, e7, e10, e13, e16, year, month, day, hour, minute, second,
    inRange⟩, getFrom_iff.mpr ⟨_, cut, size⟩⟩
  rw [cut, byteLen_append, size]
  omega

end DateTimes

/-- The nanoseconds that the digits of a fraction stand for, without those past the ninth. -/
def fractionNanos (digits : List Char) : Nat := digitsValue (scale (digits.take 9))

section Fractions

variable {digits rest later s : List Char} {n : Nat}

theorem digit_ascii {c : Char} (digit : c.isDigit = true) : c.toNat < 128 := by
  rw [Char.isDigit, Bool.and_eq_true, decide_eq_true_eq, decide_eq_true_eq] at digit
  have most : c.val.toNat ≤ 57 := digit.2
  exact Nat.lt_of_le_of_lt most (by decide)

theorem digitsValue_lt (plain : ∀ c ∈ digits, c.isDigit = true) :
    digitsValue digits < 10 ^ digits.length := by
  induction digits using List.reverseRecOn with
  | nil => decide
  | append_singleton digits c ih =>
    obtain ⟨others, own⟩ := List.forall_mem_append.mp plain
    have last := own c (List.mem_singleton.mpr rfl)
    rw [Char.isDigit, Bool.and_eq_true, decide_eq_true_eq, decide_eq_true_eq] at last
    have most : c.toNat ≤ 57 := last.2
    have zero : '0'.toNat = 48 := rfl
    have before := ih others
    rw [digitsValue, Nat.ofDigitChars_append, Nat.ofDigitChars_cons, Nat.ofDigitChars_nil,
      List.length_append, List.length_singleton, Nat.pow_succ]
    rw [digitsValue] at before
    omega

theorem parseU64_digits (plain : ∀ c ∈ digits, c.isDigit = true) (some_digit : digits ≠ [])
    (fits : digitsValue digits ≤ u64Max) : parseU64 digits = some (digitsValue digits) := by
  have unsigned : digits.head? ≠ some '+' := by
    intro plus
    have digit := plain '+' (List.mem_of_head? plus)
    cases digit
  rw [parseU64, if_neg unsigned]
  exact if_pos ⟨some_digit, List.all_eq_true.mpr plain, fits⟩

theorem scale_length (short : digits.length ≤ 9) (plain : ∀ c ∈ digits, c.isDigit = true) :
    (scale digits).length = 9 ∧ ∀ c ∈ scale digits, c.isDigit = true := by
  have size := byteLen_ascii fun c mem => digit_ascii (plain c mem)
  rw [scale, size]
  constructor
  · simp [short]
  · intro c mem
    rcases List.mem_append.mp mem with mem | mem
    · exact plain c mem
    · rw [List.eq_of_mem_replicate mem]
      rfl

theorem parseU32_scale (plain : ∀ c ∈ digits, c.isDigit = true) :
    parseU32 (scale (digits.take 9)) = some (fractionNanos digits) := by
  obtain ⟨length, scaled⟩ := scale_length (List.length_take_le 9 digits)
    fun c mem => plain c (List.mem_of_mem_take mem)
  have small := digitsValue_lt scaled
  rw [length] at small
  have word : u64Max = 2 ^ 64 - 1 := rfl
  have some_digit : scale (digits.take 9) ≠ [] := List.ne_nil_of_length_pos (by omega)
  rw [parseU32, parseU64_digits scaled some_digit (by omega), Option.bind_some]
  exact if_pos (by omega)

/-- A fraction is a dot and digits, up to the first character that is not a digit. -/
theorem fraction_dot (some_digit : digits ≠ []) (plain : ∀ c ∈ digits, c.isDigit = true)
    (stop : ∀ c, later.head? = some c → c.isDigit = false) :
    fraction ('.' :: digits ++ later) = .some (fractionNanos digits, later) := by
  have taken : (digits ++ later).takeWhile Char.isDigit = digits := by
    rw [List.takeWhile_append_of_pos plain]
    cases later with
    | nil => rw [List.takeWhile_nil, List.append_nil]
    | cons c later =>
      rw [List.takeWhile_cons_of_neg (by rw [stop c rfl]; decide), List.append_nil]
  have size := byteLen_ascii fun c mem => digit_ascii (plain c mem)
  have left : getFrom (1 + byteLen digits) ('.' :: (digits ++ later)) = some later :=
    getFrom_iff.mpr ⟨'.' :: digits, rfl, byteLen_cons⟩
  have first : getTo (min 9 (byteLen digits)) digits = some (digits.take 9) := by
    refine getTo_iff.mpr ⟨digits.drop 9, (List.take_append_drop 9 digits).symm, ?_⟩
    rw [byteLen_ascii fun c mem => digit_ascii (plain c (List.mem_of_mem_take mem)), size,
      List.length_take]
  rw [List.cons_append, fraction, taken, require, if_pos some_digit, left, first]
  change (ofOption (parseU32 (scale (digits.take 9))) >>= _) = _
  rw [parseU32_scale plain]
  rfl

theorem fraction_none (absent : rest.head? ≠ some '.') : fraction rest = .some (0, rest) := by
  rw [fraction.eq_def]
  split
  · exact absurd rfl absent
  · rfl

/-- Any text is without a fraction, or refused, or a fraction and what follows it. -/
theorem fraction_cases (rest : List Char) : rest.head? ≠ some '.' ∨ fraction rest = .none ∨
    ∃ digits later, digits ≠ [] ∧ (∀ c ∈ digits, c.isDigit = true) ∧
      (∀ c, later.head? = some c → c.isDigit = false) ∧ rest = '.' :: digits ++ later := by
  by_cases dot : rest.head? = some '.'
  · obtain ⟨after, rfl⟩ := List.head?_eq_some_iff.mp dot
    by_cases none_taken : after.takeWhile Char.isDigit = []
    · refine .inr (.inl ?_)
      rw [fraction, none_taken, require, if_neg (not_not.mpr rfl)]
      rfl
    · refine .inr (.inr ⟨after.takeWhile Char.isDigit, after.dropWhile Char.isDigit, none_taken,
        fun c mem => List.mem_takeWhile_imp mem, ?_, ?_⟩)
      · intro c head
        have stop := List.head?_dropWhile_not Char.isDigit after
        rwa [head] at stop
      · rw [List.cons_append, List.takeWhile_append_dropWhile]
  · exact .inl dot

end Fractions

/-- The characters of a zone, and those after it that are not read. -/
inductive Zone where
  | absent
  | utc (c : Char) (trailing : List Char)
  | colon (sign : Char) (hours minutes : List Char)
  | compact (sign : Char) (hours minutes : List Char)

def Zone.text : Zone → List Char
  | .absent => []
  | .utc c trailing => c :: trailing
  | .colon sign hours minutes => sign :: hours ++ ':' :: minutes
  | .compact sign hours minutes => sign :: hours ++ minutes

def signOf (sign : Char) : Int := if sign = '-' then -1 else 1

/-- The seconds of an offset whose fields are read as numbers in range. -/
def Offset (sign : Char) (hours minutes : List Char) (secs : Int) : Prop :=
  ∃ h m, parseI64 hours = some h ∧ parseI64 minutes = some m ∧ ((0 ≤ h ∧ h ≤ 23) ∧ 0 ≤ m ∧ m ≤ 59) ∧
    secs = signOf sign * (h * 3600 + m * 60)

def Zone.Reads (secs : Int) : Zone → Prop
  | .absent => secs = 0
  | .utc c _ => c ∈ ['Z', 'z'] ∧ secs = 0
  | .colon sign hours minutes => sign ∈ ['+', '-'] ∧ ':' ∉ hours ∧ Offset sign hours minutes secs
  | .compact sign hours minutes => sign ∈ ['+', '-'] ∧ (':' ∉ hours ∧ ':' ∉ minutes) ∧
    (byteLen hours = 2 ∧ byteLen minutes = 2) ∧ Offset sign hours minutes secs

/-- An offset without a colon that has four bytes, with a character across the middle. -/
def CutInside (rest : List Char) : Prop :=
  ∃ sign body, rest = sign :: body ∧ sign ∈ ['+', '-'] ∧ ':' ∉ body ∧ byteLen body = 4 ∧
    ∀ a b, body = a ++ b → byteLen a ≠ 2

section Zones

variable {c sign : Char} {rest body hours minutes : List Char} {secs : Int} {p : Panic}

theorem offsetSecs_cons : offsetSecs (c :: rest) =
    if c ∈ ['Z', 'z'] then .some 0
    else if c ∈ ['+', '-'] then signedOffset (signOf c) (c :: rest)
    else .none := by
  obtain ⟨b, more, encoded, -⟩ := first_byte (c := c)
  have heads : (bytes (c :: rest)).head? = some b := by
    rw [bytes_cons, encoded]
    rfl
  have byte : ∀ x : Char, x.toNat < 128 → (b = x.toUInt8 ↔ c = x) := by
    intro x ascii
    have both := head_bytes (s := c :: rest) ascii
    rwa [heads, List.head?_cons, Option.some.injEq, Option.some.injEq] at both
  rw [offsetSecs, heads]
  simp only [byte 'Z' (by decide), byte 'z' (by decide), byte '+' (by decide), byte '-' (by decide)]
  by_cases plus : c = '+'
  · subst plus
    rfl
  · by_cases minus : c = '-'
    · subst minus
      rfl
    · simp [plus, minus]

theorem utc_unsigned : ∀ c ∈ ['Z', 'z'], c ∉ ['+', '-'] := by simp

theorem splitAt_two (body : List Char) :
    (splitAt 2 body = .panic .boundary ∧ ∀ a b, body = a ++ b → byteLen a ≠ 2) ∨
      ∃ a b, splitAt 2 body = .some (a, b) ∧ body = a ++ b ∧ byteLen a = 2 := by
  rw [splitAt]
  cases cut : splitBytes 2 body with
  | none =>
    refine .inl ⟨rfl, fun a b whole size => ?_⟩
    rw [splitBytes_iff.mpr ⟨whole, size⟩] at cut
    cases cut
  | some parts =>
    obtain ⟨a, b⟩ := parts
    obtain ⟨whole, size⟩ := splitBytes_some cut
    exact .inr ⟨a, b, rfl, whole, size⟩

theorem offsetParts_colon {a b : List Char} (found : splitOnce ':' body = some (a, b)) :
    offsetParts body = .some (a, b) := by
  rw [offsetParts, found]

theorem offsetParts_compact (absent : ':' ∉ body) :
    offsetParts body = if byteLen body = 4 then splitAt 2 body else .none := by
  rw [offsetParts, splitOnce_none.mpr absent]

theorem offsetParts_some : offsetParts body = .some (hours, minutes) ↔
    (body = hours ++ ':' :: minutes ∧ ':' ∉ hours) ∨
      (body = hours ++ minutes ∧ ':' ∉ body ∧ byteLen hours = 2 ∧ byteLen minutes = 2) := by
  cases found : splitOnce ':' body with
  | some parts =>
    obtain ⟨a, b⟩ := parts
    have colon : ':' ∈ body := by
      rw [(splitOnce_some.mp found).1]
      exact List.mem_append_right _ List.mem_cons_self
    rw [offsetParts_colon found, ← splitOnce_some, found]
    simp [colon]
  | none =>
    have absent := splitOnce_none.mp found
    rw [offsetParts_compact absent, ← splitOnce_some, found]
    split
    · rename_i four
      rcases splitAt_two body with ⟨cut, inside⟩ | ⟨a, b, cut, rfl, size⟩
      · rw [cut]
        refine iff_of_false nofun ?_
        rintro (no_colon | ⟨rfl, -, two, -⟩)
        · cases no_colon
        · exact inside hours minutes rfl two
      · rw [cut, Outcome.some.injEq, Prod.mk.injEq]
        rw [byteLen_append] at four
        constructor
        · rintro ⟨rfl, rfl⟩
          exact .inr ⟨rfl, absent, size, by omega⟩
        · rintro (no_colon | ⟨whole, -, two, -⟩)
          · cases no_colon
          · exact append_cancel whole (size.trans two.symm)
    · rename_i other
      refine iff_of_false nofun ?_
      rintro (no_colon | ⟨rfl, -, two, two'⟩)
      · cases no_colon
      · exact other (by rw [byteLen_append]; omega)

theorem offsetParts_panic : offsetParts body = .panic p ↔
    p = .boundary ∧ ':' ∉ body ∧ byteLen body = 4 ∧ ∀ a b, body = a ++ b → byteLen a ≠ 2 := by
  cases found : splitOnce ':' body with
  | some parts =>
    rw [offsetParts_colon found]
    refine iff_of_false nofun ?_
    rintro ⟨-, absent, -⟩
    rw [splitOnce_none.mpr absent] at found
    cases found
  | none =>
    have absent := splitOnce_none.mp found
    rw [offsetParts_compact absent]
    split
    · rename_i four
      rcases splitAt_two body with ⟨cut, inside⟩ | ⟨a, b, cut, whole, size⟩
      · rw [cut, Outcome.panic.injEq]
        exact ⟨fun same => ⟨same.symm, absent, four, inside⟩, fun h => h.1.symm⟩
      · rw [cut]
        exact iff_of_false nofun fun h => h.2.2.2 a b whole size
    · rename_i other
      exact iff_of_false nofun fun h => other h.2.2.1

theorem getFrom_sign (own : sign ∈ ['+', '-']) : getFrom 1 (sign :: body) = some body := by
  have ascii : ∀ c ∈ ['+', '-'], c.toNat < 128 := by simp
  exact getFrom_iff.mpr
    ⟨[sign], rfl, byteLen_ascii (List.forall_mem_singleton.mpr (ascii sign own))⟩

theorem offset_computed {h m : Int}
    (inRange : (0 ≤ h ∧ h ≤ 23) ∧ 0 ≤ m ∧ m ≤ 59) :
    (do mul (signOf sign) (← add (← mul h 3600) (← mul m 60))) =
      some (signOf sign * (h * 3600 + m * 60)) := by
  have one : signOf sign = 1 ∨ signOf sign = -1 := by
    rw [signOf]
    split
    · exact .inr rfl
    · exact .inl rfl
  rw [mul_bind ⟨by omega, by omega⟩, mul_bind ⟨by omega, by omega⟩, add_bind ⟨by omega, by omega⟩,
    mul, i64_some]
  refine ⟨?_, rfl⟩
  rcases one with one | one <;> rw [one] <;> constructor <;> omega

theorem signedOffset_some (own : sign ∈ ['+', '-']) :
    signedOffset (signOf sign) (sign :: body) = .some secs ↔
      ∃ hours minutes, offsetParts body = .some (hours, minutes) ∧
        Offset sign hours minutes secs := by
  rw [signedOffset, getFrom_sign own]
  simp only [Outcome.bind_some, Outcome.ofOption_some, Outcome.require_some, Outcome.checked_some]
  constructor
  · rintro ⟨_, same, ⟨hours, minutes⟩, parts, h, hours_read, m, minutes_read, _, inRange, computed⟩
    obtain rfl := Option.some.inj same
    refine ⟨hours, minutes, parts, h, m, hours_read, minutes_read, inRange, ?_⟩
    rw [offset_computed inRange] at computed
    exact (Option.some.inj computed).symm
  · rintro ⟨hours, minutes, parts, h, m, hours_read, minutes_read, inRange, rfl⟩
    exact ⟨body, rfl, (hours, minutes), parts, h, hours_read, m, minutes_read, (), inRange,
      offset_computed inRange⟩

theorem signedOffset_panic (own : sign ∈ ['+', '-']) :
    signedOffset (signOf sign) (sign :: body) = .panic p ↔ offsetParts body = .panic p := by
  rw [signedOffset, getFrom_sign own]
  change (offsetParts body >>= _) = _ ↔ _
  rw [Outcome.bind_panic, or_iff_left_iff_imp]
  rintro ⟨⟨hours, minutes⟩, -, later⟩
  exfalso
  refine Outcome.bind_returns (Outcome.ofOption_returns _) (fun h _ => ?_) p later
  refine Outcome.bind_returns (Outcome.ofOption_returns _) fun m _ => ?_
  refine Outcome.bind_returns Outcome.require_returns fun _ inRange => ?_
  rw [offset_computed (Outcome.require_some.mp inRange)]
  exact Outcome.some_returns _

theorem offsetSecs_some :
    offsetSecs rest = .some secs ↔ ∃ z : Zone, z.text = rest ∧ z.Reads secs := by
  cases rest with
  | nil =>
    have none_read : offsetSecs [] = .some 0 := rfl
    rw [none_read, Outcome.some.injEq]
    constructor
    · rintro rfl
      exact ⟨.absent, rfl, rfl⟩
    · rintro ⟨z, text, reads⟩
      cases z with
      | absent => exact Eq.symm reads
      | utc c trailing => cases text
      | colon sign hours minutes => cases text
      | compact sign hours minutes => cases text
  | cons c body =>
    rw [offsetSecs_cons]
    split_ifs with utc own
    · rw [Outcome.some.injEq]
      constructor
      · rintro rfl
        exact ⟨.utc c body, rfl, utc, rfl⟩
      · rintro ⟨z, text, reads⟩
        cases z with
        | absent => cases text
        | utc c trailing => exact reads.2.symm
        | colon sign hours minutes =>
          obtain ⟨rfl, -⟩ := List.cons.inj text
          exact absurd reads.1 (utc_unsigned _ utc)
        | compact sign hours minutes =>
          obtain ⟨rfl, -⟩ := List.cons.inj text
          exact absurd reads.1 (utc_unsigned _ utc)
    · rw [signedOffset_some own]
      constructor
      · rintro ⟨hours, minutes, parts, offset⟩
        rcases offsetParts_some.mp parts with ⟨rfl, absent⟩ | ⟨rfl, absent, two⟩
        · exact ⟨.colon c hours minutes, rfl, own, absent, offset⟩
        · rw [List.mem_append, not_or] at absent
          exact ⟨.compact c hours minutes, rfl, own, absent, two, offset⟩
      · rintro ⟨z, text, reads⟩
        cases z with
        | absent => cases text
        | utc x trailing =>
          obtain ⟨rfl, -⟩ := List.cons.inj text
          exact absurd reads.1 utc
        | colon sign hours minutes =>
          obtain ⟨rfl, rfl⟩ := List.cons.inj text
          exact ⟨hours, minutes, offsetParts_some.mpr (.inl ⟨rfl, reads.2.1⟩), reads.2.2⟩
        | compact sign hours minutes =>
          obtain ⟨rfl, rfl⟩ := List.cons.inj text
          obtain ⟨-, absent, two, offset⟩ := reads
          have whole : ':' ∉ hours ++ minutes := by
            rw [List.mem_append, not_or]
            exact absent
          exact ⟨hours, minutes, offsetParts_some.mpr (.inr ⟨rfl, whole, two⟩), offset⟩
    · refine iff_of_false nofun ?_
      rintro ⟨z, text, reads⟩
      cases z with
      | absent => cases text
      | utc x trailing =>
        obtain ⟨rfl, -⟩ := List.cons.inj text
        exact utc reads.1
      | colon sign hours minutes =>
        obtain ⟨rfl, -⟩ := List.cons.inj text
        exact own reads.1
      | compact sign hours minutes =>
        obtain ⟨rfl, -⟩ := List.cons.inj text
        exact own reads.1

/-- Nothing else in an offset panics. -/
theorem offsetSecs_panic : offsetSecs rest = .panic p ↔ p = .boundary ∧ CutInside rest := by
  cases rest with
  | nil =>
    refine iff_of_false nofun ?_
    rintro ⟨-, _, _, whole, -⟩
    cases whole
  | cons c body =>
    have inside : CutInside (c :: body) ↔ c ∈ ['+', '-'] ∧ ':' ∉ body ∧ byteLen body = 4 ∧
        ∀ a b, body = a ++ b → byteLen a ≠ 2 := by
      constructor
      · rintro ⟨_, _, whole, cut⟩
        obtain ⟨rfl, rfl⟩ := List.cons.inj whole
        exact cut
      · exact fun cut => ⟨c, body, rfl, cut⟩
    rw [offsetSecs_cons, inside]
    split_ifs with utc own
    · refine iff_of_false nofun ?_
      rintro ⟨-, own, -⟩
      exact utc_unsigned c utc own
    · rw [signedOffset_panic own, offsetParts_panic]
      exact and_congr_right fun _ => (and_iff_right own).symm
    · exact iff_of_false nofun fun h => own h.2.1

end Zones

/-- The nanoseconds of a time from the epoch, counted from an offset to UTC. -/
def nanosOf (t : CivilTime) (subsecNanos : Nat) (secs : Int) : Int :=
  (marchNumber ⟨t.year, t.month.toNat, t.day.toNat⟩ * 86400 +
    (t.hour * 3600 + t.minute * 60 + min t.second 59 : Nat) - secs) * nanosPerSec + subsecNanos

section Instants

variable {s digits : List Char} {v secs : Int} {n : Nat} {t : CivilTime} {w : Written} {z : Zone}

theorem unsigned_some : unsigned digits = some n ↔
    digits ≠ [] ∧ (∀ c ∈ digits, c.isDigit = true) ∧ digitsValue digits = n := by
  rw [unsigned]
  split
  · rename_i plain
    rw [List.all_eq_true] at plain
    rw [Option.some.injEq]
    exact ⟨fun same => ⟨plain.1, plain.2, same⟩, fun h => h.2.2⟩
  · rename_i other
    rw [List.all_eq_true] at other
    refine iff_of_false nofun fun h => other ⟨h.1, h.2.1⟩

theorem unsigned_head {c : Char} (read : unsigned digits = some n) (head : digits.head? = some c) :
    c.isDigit = true := (unsigned_some.mp read).2.1 c (List.mem_of_head? head)

/-- A number is digits with a sign or without one. -/
theorem parseI64_some : parseI64 s = some v ↔ I64 v ∧
    ((∃ digits n, s = '-' :: digits ∧ unsigned digits = some n ∧ v = -n) ∨
      ∃ digits n, (s = '+' :: digits ∨ s = digits) ∧ unsigned digits = some n ∧ v = n) := by
  rw [parseI64]
  split_ifs with minus plus
  · obtain ⟨tail, rfl⟩ := List.head?_eq_some_iff.mp minus
    rw [List.tail_cons, Option.bind_eq_some_iff]
    constructor
    · rintro ⟨n, read, result⟩
      obtain ⟨fits, rfl⟩ := i64_some.mp result
      exact ⟨fits, .inl ⟨tail, n, rfl, read, rfl⟩⟩
    · rintro ⟨fits, ⟨digits, n, whole, read, rfl⟩ | ⟨digits, n, whole | rfl, read, rfl⟩⟩
      · obtain ⟨-, rfl⟩ := List.cons.inj whole
        exact ⟨n, read, i64_some.mpr ⟨fits, rfl⟩⟩
      · cases whole
      · exact absurd (unsigned_head read rfl) (by decide)
  · obtain ⟨tail, rfl⟩ := List.head?_eq_some_iff.mp plus
    rw [List.tail_cons, Option.bind_eq_some_iff]
    constructor
    · rintro ⟨n, read, result⟩
      obtain ⟨fits, rfl⟩ := i64_some.mp result
      exact ⟨fits, .inr ⟨tail, n, .inl rfl, read, rfl⟩⟩
    · rintro ⟨fits, ⟨digits, n, whole, read, rfl⟩ | ⟨digits, n, whole | rfl, read, rfl⟩⟩
      · cases whole
      · obtain ⟨-, rfl⟩ := List.cons.inj whole
        exact ⟨n, read, i64_some.mpr ⟨fits, rfl⟩⟩
      · exact absurd (unsigned_head read rfl) (by decide)
  · rw [Option.bind_eq_some_iff]
    constructor
    · rintro ⟨n, read, result⟩
      obtain ⟨fits, rfl⟩ := i64_some.mp result
      exact ⟨fits, .inr ⟨s, n, .inr rfl, read, rfl⟩⟩
    · rintro ⟨fits, ⟨digits, n, rfl, read, rfl⟩ | ⟨digits, n, rfl | rfl, read, rfl⟩⟩
      · exact absurd rfl minus
      · exact absurd rfl plus
      · exact ⟨n, read, i64_some.mpr ⟨fits, rfl⟩⟩

theorem unsigned_lt (size : byteLen digits ≤ 4) (read : unsigned digits = some n) : n < 10000 := by
  obtain ⟨-, plain, rfl⟩ := unsigned_some.mp read
  rw [byteLen_ascii fun c mem => digit_ascii (plain c mem)] at size
  exact (digitsValue_lt plain).trans_le (Nat.pow_le_pow_right (by decide) size)

/-- A number of four bytes is small. -/
theorem parseI64_bounds (size : byteLen s ≤ 4) (parsed : parseI64 s = some v) :
    -9999 ≤ v ∧ v ≤ 9999 := by
  obtain ⟨-, ⟨digits, n, rfl, read, rfl⟩ | ⟨digits, n, rfl | rfl, read, rfl⟩⟩ :=
    parseI64_some.mp parsed
  · rw [byteLen_cons] at size
    have small := unsigned_lt (by omega) read
    omega
  · rw [byteLen_cons] at size
    have small := unsigned_lt (by omega) read
    omega
  · have small := unsigned_lt size read
    omega

theorem zone_bounds (reads : z.Reads secs) : -86340 ≤ secs ∧ secs ≤ 86340 := by
  have offset : ∀ sign hours minutes, Offset sign hours minutes secs →
      -86340 ≤ secs ∧ secs ≤ 86340 := by
    rintro sign hours minutes ⟨h, m, -, -, inRange, rfl⟩
    rw [signOf]
    split <;> omega
  cases z with
  | absent =>
    rw [show secs = 0 from reads]
    decide
  | utc c trailing =>
    rw [reads.2]
    decide
  | colon sign hours minutes => exact offset _ _ _ reads.2.2
  | compact sign hours minutes => exact offset _ _ _ reads.2.2.2

theorem fractionNanos_lt (plain : ∀ c ∈ digits, c.isDigit = true) :
    fractionNanos digits < 1000000000 := by
  obtain ⟨length, scaled⟩ := scale_length (List.length_take_le 9 digits)
    fun c mem => plain c (List.mem_of_mem_take mem)
  have small := digitsValue_lt scaled
  rwa [length] at small

/-- A time whose fields are in range has an instant. -/
theorem instant_some (year : -9999 ≤ t.year ∧ t.year ≤ 9999) (inRange : t.InRange)
    (offset : -86340 ≤ secs ∧ secs ≤ 86340) (small : n < 1000000000) :
    instant t n secs = .some (nanosOf t n secs) := by
  obtain ⟨⟨some_month, last_month, some_day, last_day⟩, hour, minute, second⟩ := inRange
  have month : (t.month.toNat : Int) = t.month := Int.toNat_of_nonneg (by omega)
  have day : (t.day.toNat : Int) = t.day := Int.toNat_of_nonneg (by omega)
  have some_month' : 1 ≤ t.month.toNat := by omega
  have last_month' : t.month.toNat ≤ 12 := by omega
  have some_day' : 1 ≤ t.day.toNat := by omega
  have last_day' : t.day.toNat ≤ 31 := by omega
  have bounds := marchNumber_bounds (d := ⟨t.year, t.month.toNat, t.day.toNat⟩) some_month'
    last_month' last_day' year
  have near : Counted (marchNumber ⟨t.year, t.month.toNat, t.day.toNat⟩) :=
    ⟨⟨by omega, by omega⟩, by omega⟩
  have counted := daysFromCivil_eq (d := ⟨t.year, t.month.toNat, t.day.toNat⟩) some_month'
    last_month' some_day' last_day' near
  change daysFromCivil t.year t.month.toNat t.day.toNat = _ at counted
  rw [month, day] at counted
  have word : u64Max = 2 ^ 64 - 1 := rfl
  have fits : ∀ k, k ≤ 86400 → u64 k = some k := fun k short => if_pos (by omega)
  have ofDay : (do u64 ((← u64 ((← u64 (t.hour * 3600)) + (← u64 (t.minute * 60)))) +
      min t.second 59)) = some (t.hour * 3600 + t.minute * 60 + min t.second 59) := by
    rw [fits _ (by omega), fits _ (by omega)]
    change (u64 (t.hour * 3600 + t.minute * 60) >>= _) = _
    rw [fits _ (by omega)]
    exact fits _ (by omega)
  rw [nanosOf]
  generalize marchNumber ⟨t.year, t.month.toNat, t.day.toNat⟩ = days at bounds counted ⊢
  have seconds : t.hour * 3600 + t.minute * 60 + min t.second 59 ≤ 86399 := by omega
  generalize t.hour * 3600 + t.minute * 60 + min t.second 59 = part at ofDay seconds ⊢
  have utc : (do sub (← add (← mul days 86400) part) secs) = some (days * 86400 + part - secs) := by
    rw [mul_bind ⟨by omega, by omega⟩, add_bind ⟨by omega, by omega⟩, sub, i64_some]
    exact ⟨⟨by omega, by omega⟩, rfl⟩
  have scale : (nanosPerSec : Int) = 1000000000 := rfl
  have time : ∀ nanos : Int, -2 ^ 70 ≤ nanos → nanos ≤ 2 ^ 70 →
      systemTime nanos = some nanos := by
    intro nanos least most
    rw [systemTime, scale]
    exact if_pos ⟨by omega, by omega⟩
  have base := time ((days * 86400 + part - secs) * nanosPerSec) (by rw [scale]; omega)
    (by rw [scale]; omega)
  have whole := time ((days * 86400 + part - secs) * nanosPerSec + n) (by rw [scale]; omega)
    (by rw [scale]; omega)
  simp only [instant, Outcome.bind_some, Outcome.checked_some, Outcome.ofOption_some]
  exact ⟨days, counted, part, ofDay, _, utc, _, base, whole⟩

end Instants

end VenueTimestamps
