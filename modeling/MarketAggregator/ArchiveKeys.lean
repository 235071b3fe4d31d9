import MarketAggregator.Clocks
import Mathlib.Data.List.Basic
import Mathlib.Order.Compare

/-!
# The names of archive files

A file's key names its symbol, the date and hour of its first wall reading and a part
number. Keys are text, ordered by their characters, and a file is found again by its
key alone.
-/

namespace ArchiveKeys

open Clocks

abbrev Key := List Char

def Key.cmp : Key → Key → Ordering := compare

instance keyTransCmp : Std.TransCmp Key.cmp := inferInstanceAs (Std.TransOrd (List Char))

instance keyLawfulEqCmp : Std.LawfulEqCmp Key.cmp :=
  inferInstanceAs (Std.LawfulEqOrd (List Char))

/-- Without the leading and trailing ones of a character. -/
def trimMatches (c : Char) (s : Key) : Key :=
  ((s.dropWhile (· = c)).reverse.dropWhile (· = c)).reverse

def intoPrefix (raw : Key) : Key := trimMatches '/' raw

/-- A number with leading zeros up to a width. -/
def padded (width n : Nat) : Key := (Nat.toDigits 10 n).leftpad width '0'

/-- A symbol as a path component. A name of dots only becomes `unknown`. -/
def partitionName (symbol : String) : Key :=
  let safe := symbol.toList.map
    (fun c => if c.isAlphanum || c = '-' || c = '_' || c = '.' then c else '_')
  if trimMatches '.' safe = [] then "unknown".toList else safe

/-- Year, month and day of a count of days from the epoch. -/
def civilFromDays (days : Nat) : Nat × Nat × Nat :=
  let z := days + 719468
  let era := z / 146097
  let doe := z - era * 146097
  let yoe := (doe - doe / 1460 + doe / 36524 - doe / 146096) / 365
  let y := yoe + era * 400
  let doy := doe - (365 * yoe + yoe / 4 - yoe / 100)
  let mp := (5 * doy + 2) / 153
  let d := doy - (153 * mp + 2) / 5 + 1
  let m := if mp < 10 then mp + 3 else mp - 9
  (if m ≤ 2 then y + 1 else y, m, d)

/-- Whole seconds since the epoch. A reading before it counts as zero. -/
def unixSecs (wall : Int) : Nat := if wall < 0 then 0 else wall.toNat / nanosPerSec

/-- The date and the hour in UTC. -/
def dateHour (wall : Int) : Key × Nat :=
  let secs := unixSecs wall
  let civil := civilFromDays (secs / 86400)
  (padded 4 civil.1 ++ '-' :: padded 2 civil.2.1 ++ '-' :: padded 2 civil.2.2,
    secs % 86400 / 3600)

def dirFor (base partition : Key) (wall : Int) : Key :=
  base ++ "/symbol=".toList ++ partition ++ "/date=".toList ++ (dateHour wall).1 ++
    "/hour=".toList ++ padded 2 (dateHour wall).2 ++ ['/']

def partName (part : Nat) : Key := "part-".toList ++ padded 5 part ++ ".parquet".toList

def partKey (dir : Key) (part : Nat) : Key := dir ++ partName part

/-- A decimal number below 2^64, with or without a plus sign. -/
def parseU64 (s : Key) : Option Nat :=
  let digits := if s.head? = some '+' then s.tail else s
  if digits ≠ [] ∧ digits.all Char.isDigit = true ∧ Nat.ofDigitChars 10 digits 0 ≤ u64Max then
    some (Nat.ofDigitChars 10 digits 0)
  else none

/-- What follows the last slash. -/
def fileName (key : Key) : Key := (key.reverse.takeWhile (· ≠ '/')).reverse

def partNumber (key : Key) : Option Nat :=
  ("part-".toList.isPrefixOf? (fileName key)).bind fun rest =>
    (".parquet".toList.isSuffixOf? rest).bind parseU64

/-- One more than the highest part number of a listing. -/
def nextPart (existing : List Key) : Nat :=
  ((existing.filterMap partNumber).max?).elim 0 (fun highest => min (highest + 1) u64Max)

/-- Split at the last occurrence of a pattern. -/
def rsplitOnce (pattern : Key) : Key → Option (Key × Key)
  | [] => none
  | c :: s => match rsplitOnce pattern s with
    | some (head, tail) => some (c :: head, tail)
    | none => (pattern.isPrefixOf? (c :: s)).map (fun tail => ([], tail))

/-- Everything before the date of a key, or else its directory. -/
def partitionOf (key : Key) : Key :=
  match rsplitOnce "/date=".toList key with
  | some (head, _) => head
  | none => ((rsplitOnce ['/'] key).map Prod.fst).getD []

section Names

variable {width n m : Nat} {c : Char} {s t a b : Key}

theorem padded_digits : ∀ c ∈ padded width n, c.isDigit = true := by
  intro c mem
  rcases List.mem_append.mp mem with zero | digit
  · rw [List.eq_of_mem_replicate zero]
    decide
  · exact Nat.isDigit_of_mem_toDigits (by decide) (by decide) digit

theorem ofDigitChars_padded : Nat.ofDigitChars 10 (padded width n) 0 = n := by
  rw [padded, List.leftpad, Nat.ofDigitChars_append, Nat.ofDigitChars_replicate_zero,
    Nat.mul_zero, Nat.ofDigitChars_ten_toDigits]

theorem padded_injective (h : padded width n = padded width m) : n = m := by
  have same := congrArg (fun digits => Nat.ofDigitChars 10 digits 0) h
  simpa only [ofDigitChars_padded] using same

theorem slash_not_digit : ∀ c ∈ padded width n, c ≠ '/' := by
  intro c mem slash
  have digit := padded_digits c mem
  rw [slash] at digit
  cases digit

theorem partName_eq : partName n = "part-".toList ++ padded 5 n ++ ".parquet".toList := rfl

theorem partName_slashless : ∀ c ∈ partName n, c ≠ '/' := by
  intro c mem
  rw [partName_eq, List.mem_append, List.mem_append] at mem
  rcases mem with (mem | mem) | mem
  · rintro rfl
    exact absurd mem (by decide)
  · exact slash_not_digit c mem
  · rintro rfl
    exact absurd mem (by decide)

theorem fileName_append (slashless : ∀ c ∈ a, c ≠ '/') : fileName (s ++ '/' :: a) = a := by
  have stop : (s ++ '/' :: a).reverse = a.reverse ++ '/' :: s.reverse := by simp
  rw [fileName, stop, List.takeWhile_append_of_pos (by simpa using slashless),
    List.takeWhile_cons_of_neg (by simp), List.append_nil, List.reverse_reverse]

/-- A text is split in one way at the last occurrence of a character. -/
theorem append_cons_injective (ha : c ∉ a) (hb : c ∉ b) (h : s ++ c :: a = t ++ c :: b) :
    s = t ∧ a = b := by
  rcases List.append_eq_append_iff.mp h with ⟨l, rfl, rest⟩ | ⟨l, rfl, rest⟩
  · cases l with
    | nil => exact ⟨(List.append_nil s).symm, (List.cons.inj rest).2⟩
    | cons x l =>
      obtain ⟨-, rfl⟩ := List.cons.inj rest
      exact absurd (List.mem_append_right l List.mem_cons_self) ha
  · cases l with
    | nil => exact ⟨List.append_nil t, (List.cons.inj rest).2.symm⟩
    | cons x l =>
      obtain ⟨-, rfl⟩ := List.cons.inj rest
      exact absurd (List.mem_append_right l List.mem_cons_self) hb

theorem append_slash_injective (ha : ∀ c ∈ a, c ≠ '/') (hb : ∀ c ∈ b, c ≠ '/')
    (h : s ++ '/' :: a = t ++ '/' :: b) : s = t ∧ a = b :=
  append_cons_injective (fun mem => ha _ mem rfl) (fun mem => hb _ mem rfl) h

/-- A directory's name without its last slash. -/
def stem (base partition : Key) (wall : Int) : Key :=
  base ++ "/symbol=".toList ++ partition ++ "/date=".toList ++ (dateHour wall).1 ++
    "/hour=".toList ++ padded 2 (dateHour wall).2

variable {base partition : Key} {wall : Int}

theorem partKey_dirFor :
    partKey (dirFor base partition wall) n = stem base partition wall ++ '/' :: partName n := by
  rw [partKey, dirFor, ← stem, List.append_assoc]
  rfl

theorem base_prefix : base ++ ['/'] <+: partKey (dirFor base partition wall) n := by
  rw [partKey_dirFor, stem]
  simp only [List.append_assoc]
  exact (List.prefix_append_right_inj base).mpr ⟨_, rfl⟩

theorem parquet_suffix : ".parquet".toList <:+ partKey (dirFor base partition wall) n := by
  rw [partKey, partName_eq, ← List.append_assoc]
  exact List.suffix_append _ _

/-- A key names its directory and its part. -/
theorem partKey_injective {dir dir' : Key} (h : partKey dir n = partKey dir' m) :
    dir = dir' ∧ n = m := by
  have dashless : ∀ k, '-' ∉ padded 5 k := by
    intro k mem
    have digit := padded_digits '-' mem
    cases digit
  have split : ∀ (d : Key) k, partKey d k =
      (d ++ "part".toList) ++ '-' :: padded 5 k ++ ".parquet".toList := by
    intro d k
    rw [partKey, partName_eq]
    simp [List.append_assoc]
  rw [split, split, List.append_cancel_right_eq] at h
  obtain ⟨dirs, numbers⟩ := append_cons_injective (dashless n) (dashless m) h
  exact ⟨List.append_cancel_right dirs, padded_injective numbers⟩

theorem parseU64_padded (fits : n ≤ u64Max) : parseU64 (padded width n) = some n := by
  have unsigned : (padded width n).head? ≠ some '+' := by
    intro plus
    have digit := padded_digits '+' (List.mem_of_head? plus)
    cases digit
  have some_digit : padded width n ≠ [] :=
    List.append_ne_nil_of_right_ne_nil _ Nat.toDigits_ne_nil
  have digits : (padded width n).all Char.isDigit = true := List.all_eq_true.mpr padded_digits
  rw [parseU64, if_neg unsigned, ofDigitChars_padded, if_pos ⟨some_digit, digits, fits⟩]

/-- A part's number is read back from its key. -/
theorem partNumber_partKey (fits : n ≤ u64Max) :
    partNumber (partKey (dirFor base partition wall) n) = some n := by
  rw [partKey_dirFor, partNumber, fileName_append partName_slashless, partName_eq,
    List.append_assoc, List.isPrefixOf?_eq_some_iff_append_eq.mpr rfl, Option.bind_some,
    List.isSuffixOf?_eq_some_iff_append_eq.mpr rfl, Option.bind_some]
  exact parseU64_padded fits

/-- No part of a listing reaches a bound, as the writer reads it or as it names it. -/
structure PartsBelow (bound : Nat) (existing : List Key) : Prop where
  read : ∀ key ∈ existing, ∀ n, partNumber key = some n → n < bound
  named : ∀ dir n, partKey dir n ∈ existing → n < bound

/-- The parts that a writer names are below a bound when their numbers are. -/
theorem partsBelow_of_named {existing : List Key} {bound : Nat} (room : bound ≤ u64Max)
    (named : ∀ key ∈ existing, ∃ base partition wall n,
      key = partKey (dirFor base partition wall) n ∧ n < bound) : PartsBelow bound existing := by
  constructor
  · intro key mem m number
    obtain ⟨base, partition, wall, n, rfl, small⟩ := named key mem
    rw [partNumber_partKey (by omega)] at number
    obtain rfl := Option.some.inj number
    exact small
  · intro dir m mem
    obtain ⟨base, partition, wall, n, same, small⟩ := named _ mem
    obtain ⟨-, rfl⟩ := partKey_injective same
    exact small

theorem nextPart_past {existing : List Key} {key : Key} (mem : key ∈ existing)
    (number : partNumber key = some n) : min (n + 1) u64Max ≤ nextPart existing := by
  have counted : n ∈ existing.filterMap partNumber :=
    List.mem_filterMap.mpr ⟨key, mem, number⟩
  rw [nextPart]
  cases top : (existing.filterMap partNumber).max? with
  | none =>
    rw [List.max?_eq_none_iff] at top
    rw [top] at counted
    cases counted
  | some highest =>
    have below : n ≤ highest := (List.max?_eq_some_iff.mp top).2 n counted
    change min (n + 1) u64Max ≤ min (highest + 1) u64Max
    omega

theorem partNumber_lt_nextPart {existing : List Key} {key : Key} (mem : key ∈ existing)
    (number : partNumber key = some n) (fits : n < u64Max) : n < nextPart existing := by
  have past := nextPart_past mem number
  omega

theorem nextPart_le_max (existing : List Key) : nextPart existing ≤ u64Max := by
  rw [nextPart]
  cases (existing.filterMap partNumber).max? with
  | none => exact Nat.zero_le _
  | some highest => exact Nat.min_le_right _ _

theorem nextPart_mono {few many : List Key} (sub : few ⊆ many) : nextPart few ≤ nextPart many := by
  rw [nextPart]
  cases top : (few.filterMap partNumber).max? with
  | none => exact Nat.zero_le _
  | some highest =>
    obtain ⟨key, mem, number⟩ := List.mem_filterMap.mp (List.max?_eq_some_iff.mp top).1
    exact nextPart_past (sub mem) number

/-- A listed part has a number below the next one. -/
theorem part_lt_nextPart {existing listing : List Key} {bound : Nat}
    (small : PartsBelow bound existing) (room : bound ≤ u64Max)
    (mem : partKey (dirFor base partition wall) n ∈ existing)
    (listed : partKey (dirFor base partition wall) n ∈ listing) : n < nextPart listing := by
  have bounded := small.named _ n mem
  exact partNumber_lt_nextPart listed (partNumber_partKey (by omega)) (by omega)

/-- A number from the next part on is new to a listing. -/
theorem partKey_notMem {existing listing : List Key} {bound : Nat}
    (small : PartsBelow bound existing) (room : bound ≤ u64Max)
    (listed : partKey (dirFor base partition wall) n ∈ existing →
      partKey (dirFor base partition wall) n ∈ listing)
    (past : nextPart listing ≤ n) : partKey (dirFor base partition wall) n ∉ existing := by
  intro mem
  have below := part_lt_nextPart small room mem (listed mem)
  omega

theorem nextPart_le {existing listing : List Key} {bound : Nat}
    (small : PartsBelow bound existing) (sub : listing ⊆ existing) :
    nextPart listing ≤ bound := by
  rw [nextPart]
  cases top : (listing.filterMap partNumber).max? with
  | none => exact Nat.zero_le _
  | some highest =>
    obtain ⟨key, mem, number⟩ := List.mem_filterMap.mp (List.max?_eq_some_iff.mp top).1
    have below := small.read key (sub mem) highest number
    change min (highest + 1) u64Max ≤ bound
    omega

theorem rsplitOnce_prepend {pattern : Key} (l : Key) (h : rsplitOnce pattern s = some (a, b)) :
    rsplitOnce pattern (l ++ s) = some (l ++ a, b) := by
  induction l with
  | nil => exact h
  | cons c l ih =>
    rw [List.cons_append, rsplitOnce, ih]
    rfl

/-- A pattern that starts with a slash is not found where no slash is. -/
theorem rsplitOnce_skip {p : Key} (l : Key) (slashless : ∀ c ∈ l, c ≠ '/')
    (h : rsplitOnce ('/' :: p) s = none) : rsplitOnce ('/' :: p) (l ++ s) = none := by
  induction l with
  | nil => exact h
  | cons c l ih =>
    have rest := ih fun c mem => slashless c (List.mem_cons_of_mem _ mem)
    have other : ('/' == c) = false := by
      simpa using Ne.symm (slashless c List.mem_cons_self)
    rw [List.cons_append, rsplitOnce, rest]
    simp [List.isPrefixOf?, other]

theorem rsplitOnce_pass {pattern : Key} (absent : pattern.isPrefixOf? (c :: s) = none)
    (h : rsplitOnce pattern s = none) : rsplitOnce pattern (c :: s) = none := by
  rw [rsplitOnce, h, absent]
  rfl

theorem rsplitOnce_found {p : Key} (slashless : ∀ c ∈ p, c ≠ '/')
    (h : rsplitOnce ('/' :: p) s = none) :
    rsplitOnce ('/' :: p) ('/' :: p ++ s) = some ([], s) := by
  have here : ('/' :: p).isPrefixOf? ('/' :: (p ++ s)) = some s :=
    List.isPrefixOf?_eq_some_iff_append_eq.mpr rfl
  rw [List.cons_append, rsplitOnce, rsplitOnce_skip p slashless h, here]
  rfl

theorem dateHour_slashless {wall : Int} : ∀ c ∈ (dateHour wall).1, c ≠ '/' := by
  intro c mem
  simp only [dateHour, List.mem_append, List.mem_cons] at mem
  rcases mem with (year | rfl | month) | rfl | day
  · exact slash_not_digit c year
  · decide
  · exact slash_not_digit c month
  · decide
  · exact slash_not_digit c day

theorem count_slash (slashless : ∀ c ∈ s, c ≠ '/') : s.count '/' = 0 :=
  List.count_eq_zero.mpr fun mem => slashless '/' mem rfl

/-- All directories of a partition are equally deep. -/
theorem count_stem : (stem base partition wall).count '/' =
    (base ++ "/symbol=".toList ++ partition).count '/' + 2 := by
  have date : (dateHour wall).1.count '/' = 0 := count_slash dateHour_slashless
  have hour : (padded 2 (dateHour wall).2).count '/' = 0 := count_slash slash_not_digit
  simp only [stem, List.count_append, date, hour]
  rfl

/-- A directory of a partition holds no file of another one of its directories. -/
theorem dirFor_of_prefix {wall' : Int}
    (h : dirFor base partition wall <+: partKey (dirFor base partition wall') n) :
    dirFor base partition wall = dirFor base partition wall' := by
  obtain ⟨rest, whole⟩ := h
  have split : dirFor base partition wall ++ rest = stem base partition wall ++ '/' :: rest := by
    rw [dirFor, ← stem, List.append_assoc]
    rfl
  rw [partKey_dirFor, split] at whole
  have slashes := congrArg (List.count '/') whole
  rw [List.count_append, List.count_append, List.count_cons_self, List.count_cons_self, count_stem,
    count_stem, count_slash partName_slashless] at slashes
  have slashless : ∀ c ∈ rest, c ≠ '/' := by
    rintro c mem rfl
    have some_slash := List.count_pos_iff.mpr mem
    omega
  exact congrArg (· ++ ['/']) (append_slash_injective slashless partName_slashless whole).1

/-- The reader groups a writer's files by their symbol. -/
theorem partitionOf_partKey :
    partitionOf (partKey (dirFor base partition wall) n) =
      base ++ "/symbol=".toList ++ partition := by
  have file : rsplitOnce "/date=".toList ('/' :: partName n) = none := by
    refine rsplitOnce_pass rfl ?_
    rw [← List.append_nil (partName n)]
    exact rsplitOnce_skip _ partName_slashless rfl
  have hour : rsplitOnce "/date=".toList
      ("/hour=".toList ++ (padded 2 (dateHour wall).2 ++ '/' :: partName n)) = none := by
    refine rsplitOnce_pass rfl ?_
    exact rsplitOnce_skip ("hour=".toList) (by simp)
      (rsplitOnce_skip _ slash_not_digit file)
  have date := rsplitOnce_found (p := "date=".toList) (by simp)
    (rsplitOnce_skip (dateHour wall).1 dateHour_slashless hour)
  have key : partKey (dirFor base partition wall) n =
      (base ++ "/symbol=".toList ++ partition) ++ ('/' :: "date=".toList ++
        ((dateHour wall).1 ++ ("/hour=".toList ++
          (padded 2 (dateHour wall).2 ++ '/' :: partName n)))) := by
    rw [partKey_dirFor, stem]
    simp only [List.append_assoc]
    rfl
  have split := rsplitOnce_prepend (base ++ "/symbol=".toList ++ partition) date
  rw [partitionOf, key]
  have whole : rsplitOnce "/date=".toList ((base ++ "/symbol=".toList ++ partition) ++
      ('/' :: "date=".toList ++ ((dateHour wall).1 ++ ("/hour=".toList ++
        (padded 2 (dateHour wall).2 ++ '/' :: partName n))))) = _ := split
  rw [whole, List.append_nil]

end Names

example : dirFor "events".toList (partitionName "BTC-USD") (1786247000 * 1000000000) =
    "events/symbol=BTC-USD/date=2026-08-09/hour=03/".toList := by decide +kernel

example : partitionOf (partKey (dirFor "events".toList (partitionName "a/b") 0) 7) =
    "events/symbol=a_b".toList := by decide +kernel

end ArchiveKeys
