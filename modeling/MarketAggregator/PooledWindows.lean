import MarketAggregator.CrossTouch
import MarketAggregator.RecordedRings
import Mathlib.Tactic.FieldSimp
import Mathlib.Tactic.Positivity

/-!
# The windows of several venues as one

Each venue's window holds samples and prints of its own, and its reading gives rounded means of
them. The windows of one span merged over the venues read as one window over all the samples and
prints. Rounding is the only loss: every mean of a leg is off by half a unit in the last place at
most, the merged mean of means by no more than that, and it is rounded once more.
-/

namespace PooledWindows

open Clocks CrossTouch GuardedRuns MarketEvents OrderBook RecordedRings VenueStreams WindowBuckets
  WindowHistory

section Rounding

/-- The sum of figures of this total weight is off by at most so much a unit of weight. -/
def Near (slack weight a b : ℚ) : Prop := |a - b| ≤ weight * slack

variable {slack weight other a b c d : ℚ}

theorem near_refl (positive : 0 ≤ weight * slack) : Near slack weight a a := by
  rw [Near, sub_self, abs_zero]
  exact positive

theorem Near.add (first : Near slack weight a b) (second : Near slack other c d) :
    Near slack (weight + other) (a + c) (b + d) := by
  have apart : a + c - (b + d) = (a - b) + (c - d) := by ring
  rw [Near, apart, add_mul]
  exact (abs_add_le _ _).trans (add_le_add first second)

/-- A mean off by the slack, weighed again. -/
theorem near_weighed (positive : 0 < weight) (mean : |a - b / weight| ≤ slack) :
    Near slack weight (a * weight) b := by
  have apart : a * weight - b = (a - b / weight) * weight := by
    rw [sub_mul, div_mul_cancel₀ b positive.ne']
  rw [Near, apart, abs_mul, abs_of_pos positive, mul_comm weight]
  exact mul_le_mul_of_nonneg_right mean positive.le

theorem Near.mean (positive : 0 < weight) (near : Near slack weight a b) :
    |a / weight - b / weight| ≤ slack := by
  rw [← sub_div, abs_div, abs_of_pos positive, div_le_iff₀ positive, mul_comm slack]
  exact near

/-- Rounding is off by half a unit in the last place at most. -/
theorem roundDp_near (places : Nat) (q : ℚ) : |roundDp places q - q| ≤ 1 / 2 / 10 ^ places := by
  have unit : (0 : ℚ) < 10 ^ places := by positivity
  have low := Rat.floor_le (q * 10 ^ places)
  have high := Rat.lt_floor_add_one (q * 10 ^ places)
  rw [Int.cast_add, Int.cast_one] at high
  have nearest : ∀ n : ℚ, |n - q * 10 ^ places| ≤ 1 / 2 →
      |n / 10 ^ places - q| ≤ 1 / 2 / 10 ^ places := by
    intro n close
    have apart : n / 10 ^ places - q = (n - q * 10 ^ places) / 10 ^ places := by
      rw [sub_div, mul_div_cancel_right₀ q unit.ne']
    rw [apart, abs_div, abs_of_pos unit]
    exact div_le_div_of_nonneg_right close unit.le
  rw [roundDp]
  apply nearest
  rw [abs_le]
  split
  · rename_i below
    constructor <;> linarith
  · rename_i half
    split
    · rename_i above
      rw [Int.cast_add, Int.cast_one]
      constructor <;> linarith
    · rename_i most
      split
      · constructor <;> linarith
      · rw [Int.cast_add, Int.cast_one]
        constructor <;> linarith

def half : ℚ := 1 / 2 / 10 ^ midScale

/-- A rounded mean stands for its sum. Without weight there is nothing to stand for. -/
theorem weighed_near (nonneg : 0 ≤ weight) (empty : weight = 0 → b = 0) :
    Near half weight (roundDp midScale (b / weight) * weight) b := by
  rcases nonneg.eq_or_lt with zero | positive
  · rw [← zero, empty zero.symm, mul_zero]
    exact near_refl (by rw [zero_mul])
  · exact near_weighed positive (roundDp_near midScale _)

/-- A mean of sums that are near, rounded, is within twice the slack. -/
theorem merged_within (positive : 0 < weight) (near : Near half weight a b) :
    |roundDp midScale (a / weight) - b / weight| ≤ 1 / 10 ^ 8 := by
  have rounded := roundDp_near midScale (a / weight)
  have merged := near.mean positive
  have twice : 1 / 2 / 10 ^ midScale + half = 1 / 10 ^ 8 := by
    norm_num [half, midScale]
  have apart : roundDp midScale (a / weight) - b / weight =
      (roundDp midScale (a / weight) - a / weight) + (a / weight - b / weight) := by
    ring
  rw [apart, ← twice]
  exact (abs_add_le _ _).trans (add_le_add rounded merged)

end Rounding

/-- A delivered leg with the window that its reading of a span is read from, if it publishes
the span. -/
structure SpanLeg (spanMs : Nat) where
  leg : WindowLeg
  source : Option Window
  read : leg.windows.find? (fun w => w.spanMs = spanMs) = source.map Window.reading

namespace SpanLeg

variable {spanMs : Nat}

def samples (l : SpanLeg spanMs) : List Sample := l.source.elim [] Window.samples

def prints (l : SpanLeg spanMs) : List Print := l.source.elim [] Window.prints

/-- It has a sample or a print in the span. -/
def contributes (l : SpanLeg spanMs) : Bool := !l.samples.isEmpty || !l.prints.isEmpty

def exclusion (l : SpanLeg spanMs) : WindowExclusion where
  venue := l.leg.venue
  reason := if l.source.isSome then .noData else .spanNotPublished

def trustedMs (l : SpanLeg spanMs) : Option Nat := l.source.map (fun w => w.reading.trustedMs)

def integrityFloor (l : SpanLeg spanMs) : Option Integrity :=
  l.source.bind (fun w => w.reading.integrityFloor)

end SpanLeg

section Pooling

variable {spanMs : Nat}

def pooledSamples (legs : List (SpanLeg spanMs)) : List Sample := legs.flatMap SpanLeg.samples

def pooledPrints (legs : List (SpanLeg spanMs)) : List Print := legs.flatMap SpanLeg.prints

def meanOf (samples : List Sample) : Option ℚ :=
  if samples = [] then none else some ((samples.map Sample.mid).sum / samples.length)

def volumeOf (prints : List Print) : ℚ := (prints.map Print.qty).sum

def paidFor (prints : List Print) : ℚ := (prints.map (fun p => p.price * p.qty)).sum

def vwapOf (prints : List Print) : Option ℚ :=
  if volumeOf prints = 0 then none else some (paidFor prints / volumeOf prints)

def Within (slack : ℚ) : Option ℚ → Option ℚ → Prop
  | some a, some b => |a - b| ≤ slack
  | none, none => True
  | _, _ => False

/-- One reading over everything that the legs sampled and printed, and the floors of the legs
that contribute. -/
structure Pooled (legs : List (SpanLeg spanMs)) (r : CrossWindowReading) : Prop where
  spanMs : r.spanMs = spanMs
  samples : r.samples = (pooledSamples legs).length
  high : r.high = ((pooledSamples legs).map Sample.mid).max?
  low : r.low = ((pooledSamples legs).map Sample.mid).min?
  mean : Within (1 / 10 ^ 8) r.mean (meanOf (pooledSamples legs))
  trades : r.trades = (pooledPrints legs).length
  volume : r.volume = if pooledPrints legs = [] then none else some (volumeOf (pooledPrints legs))
  vwap : Within (1 / 10 ^ 8) r.vwap (vwapOf (pooledPrints legs))
  integrityFloor : r.integrityFloor =
    ((legs.filter (fun l => !l.samples.isEmpty)).filterMap SpanLeg.integrityFloor).min?
  trustedMsFloor : r.trustedMsFloor =
    ((legs.filter SpanLeg.contributes).filterMap SpanLeg.trustedMs).min?.getD 0
  maxLagMs : r.maxLagMs =
    ((legs.filter SpanLeg.contributes).map (fun l => l.leg.lagMs)).max?.getD 0
  venuesUsed : r.venuesUsed = (legs.filter SpanLeg.contributes).length
  excluded : r.excluded = (legs.filter (fun l => !l.contributes)).map SpanLeg.exclusion

/-- What the legs so far add up to. -/
structure Gathered (legs : List (SpanLeg spanMs)) (t : SpanTotals) : Prop where
  samples : t.samples = (pooledSamples legs).length
  high : t.high = ((pooledSamples legs).map Sample.mid).max?
  low : t.low = ((pooledSamples legs).map Sample.mid).min?
  means : Near half t.samples t.sumMeanWeighted ((pooledSamples legs).map Sample.mid).sum
  trades : t.trades = (pooledPrints legs).length
  volume : t.sumVolume = volumeOf (pooledPrints legs)
  vwaps : Near half t.sumVolume t.sumVwapWeighted (paidFor (pooledPrints legs))
  integrityFloor : t.integrityFloor =
    ((legs.filter (fun l => !l.samples.isEmpty)).filterMap SpanLeg.integrityFloor).min?
  floor : t.floor = ((legs.filter SpanLeg.contributes).filterMap SpanLeg.trustedMs).min?
  maxLagMs : t.maxLagMs =
    ((legs.filter SpanLeg.contributes).map (fun l => l.leg.lagMs)).max?.getD 0
  venuesUsed : t.venuesUsed = (legs.filter SpanLeg.contributes).length
  excluded : t.excluded = (legs.filter (fun l => !l.contributes)).map SpanLeg.exclusion

theorem volumeOf_nonneg {prints : List Print} (valid : ∀ p ∈ prints, 0 ≤ p.qty) :
    0 ≤ volumeOf prints := by
  apply List.sum_nonneg
  intro q mem
  obtain ⟨p, own, rfl⟩ := List.mem_map.mp mem
  exact valid p own

/-- Prints without volume are paid nothing for. -/
theorem paidFor_empty {prints : List Print} (valid : ∀ p ∈ prints, 0 ≤ p.qty)
    (empty : volumeOf prints = 0) : paidFor prints = 0 := by
  induction prints with
  | nil => rfl
  | cons p prints ih =>
    have first := valid p List.mem_cons_self
    have rest := volumeOf_nonneg fun q mem => valid q (List.mem_cons_of_mem p mem)
    have split : volumeOf (p :: prints) = p.qty + volumeOf prints := List.sum_cons
    rw [split] at empty
    have none : p.qty = 0 := by linarith
    have others : volumeOf prints = 0 := by linarith
    have paid : paidFor (p :: prints) = p.price * p.qty + paidFor prints := List.sum_cons
    rw [paid, none, mul_zero, zero_add]
    exact ih (fun q mem => valid q (List.mem_cons_of_mem p mem)) others

variable {t : SpanTotals} {samples : List Sample} {prints : List Print} {trustedMs : Nat}

theorem addSamples_reading : t.addSamples (readingOf spanMs trustedMs samples prints) =
    { t with
      integrityFloor := minOpt t.integrityFloor (samples.map Sample.integrity).min?
      high := maxOpt t.high (samples.map Sample.mid).max?
      low := minOpt t.low (samples.map Sample.mid).min?
      sumMeanWeighted := t.sumMeanWeighted +
        roundDp midScale ((samples.map Sample.mid).sum / samples.length) * samples.length } := by
  cases samples with
  | nil =>
    have unsampled : (readingOf spanMs trustedMs [] prints).samples = 0 := rfl
    have floor : minOpt t.integrityFloor (none : Option Integrity) = t.integrityFloor := by
      cases t.integrityFloor <;> rfl
    have high : maxOpt t.high (none : Option ℚ) = t.high := by
      cases t.high <;> rfl
    have low : minOpt t.low (none : Option ℚ) = t.low := by
      cases t.low <;> rfl
    rw [SpanTotals.addSamples, if_pos unsampled]
    simp [floor, high, low]
  | cons x samples =>
    have sampled : (readingOf spanMs trustedMs (x :: samples) prints).samples ≠ 0 := by
      simp [readingOf]
    rw [SpanTotals.addSamples, if_neg sampled]
    simp [readingOf]

theorem addPrints_reading : t.addPrints (readingOf spanMs trustedMs samples prints) =
    { t with
      sumVolume := t.sumVolume + volumeOf prints
      sumVwapWeighted := t.sumVwapWeighted +
        roundDp midScale (paidFor prints / volumeOf prints) * volumeOf prints } := by
  have volume : (readingOf spanMs trustedMs samples prints).volume =
      if prints = [] then none else some (volumeOf prints) := rfl
  have vwap : (readingOf spanMs trustedMs samples prints).vwap =
      if prints = [] ∨ volumeOf prints = 0 then none
      else some (roundDp midScale (paidFor prints / volumeOf prints)) := rfl
  rw [SpanTotals.addPrints, volume, vwap]
  by_cases silent : prints = []
  · subst silent
    simp [volumeOf]
  · by_cases empty : volumeOf prints = 0
    · simp [silent, empty]
    · simp [silent, empty]

/-- What a leg with a reading of its own adds. -/
theorem add_contributing {l : SpanLeg spanMs} {w : Window} (source : l.source = some w)
    (contributes : l.contributes = true) (t : SpanTotals) : t.add spanMs l.leg =
      { t with
        floor := minOpt t.floor (some w.reading.trustedMs)
        integrityFloor := minOpt t.integrityFloor w.reading.integrityFloor
        maxLagMs := max t.maxLagMs l.leg.lagMs
        venuesUsed := t.venuesUsed + 1
        samples := t.samples + w.samples.length
        high := maxOpt t.high (w.samples.map Sample.mid).max?
        low := minOpt t.low (w.samples.map Sample.mid).min?
        sumMeanWeighted := t.sumMeanWeighted +
          roundDp midScale ((w.samples.map Sample.mid).sum / w.samples.length) * w.samples.length
        trades := t.trades + w.prints.length
        sumVolume := t.sumVolume + volumeOf w.prints
        sumVwapWeighted := t.sumVwapWeighted +
          roundDp midScale (paidFor w.prints / volumeOf w.prints) * volumeOf w.prints } := by
  have found := l.read
  rw [source, Option.map_some] at found
  obtain ⟨label, trusted, reading⟩ := w.reading_eq
  have filled : ¬ (w.reading.samples = 0 ∧ w.reading.trades = 0) := by
    have own : l.samples = w.samples ∧ l.prints = w.prints := by
      rw [SpanLeg.samples, SpanLeg.prints, source]
      exact ⟨rfl, rfl⟩
    rw [SpanLeg.contributes, own.1, own.2] at contributes
    rw [reading]
    simpa [readingOf, or_iff_not_imp_left] using contributes
  have floor : some ((t.floor.map (min · w.reading.trustedMs)).getD w.reading.trustedMs) =
      minOpt t.floor (some w.reading.trustedMs) := by
    cases t.floor <;> rfl
  rw [SpanTotals.add, found]
  simp only [filled, if_false]
  rw [floor, reading, addSamples_reading, addPrints_reading]
  rfl

theorem add_excluded {l : SpanLeg spanMs} (empty : l.contributes = false) (t : SpanTotals) :
    t.add spanMs l.leg = { t with excluded := t.excluded ++ [l.exclusion] } := by
  have found := l.read
  rw [SpanTotals.add, found, SpanLeg.exclusion]
  cases source : l.source with
  | none => rfl
  | some w =>
    obtain ⟨label, trusted, reading⟩ := w.reading_eq
    have silent : w.reading.samples = 0 ∧ w.reading.trades = 0 := by
      rw [SpanLeg.contributes, SpanLeg.samples, SpanLeg.prints, source] at empty
      rw [reading]
      simpa [readingOf] using empty
    simp [silent, SpanTotals.exclude]

theorem volumeOf_append (before more : List Print) :
    volumeOf (before ++ more) = volumeOf before + volumeOf more := by
  rw [volumeOf, List.map_append, List.sum_append]
  rfl

theorem paidFor_append (before more : List Print) :
    paidFor (before ++ more) = paidFor before + paidFor more := by
  rw [paidFor, List.map_append, List.sum_append]
  rfl

theorem SpanLeg.nonneg (l : SpanLeg spanMs) : ∀ p ∈ l.prints, 0 ≤ p.qty := by
  rw [SpanLeg.prints]
  cases l.source with
  | none => exact List.forall_mem_nil _
  | some w => exact w.nonneg

theorem pooled_snoc (legs : List (SpanLeg spanMs)) (l : SpanLeg spanMs) :
    pooledSamples (legs ++ [l]) = pooledSamples legs ++ l.samples ∧
      pooledPrints (legs ++ [l]) = pooledPrints legs ++ l.prints := by
  simp [pooledSamples, pooledPrints]

variable {legs : List (SpanLeg spanMs)}

/-- A leg with nothing in the span changes the list of the excluded alone. -/
theorem gathered_excluded (g : Gathered legs t) {l : SpanLeg spanMs}
    (empty : l.contributes = false) : Gathered (legs ++ [l]) (t.add spanMs l.leg) := by
  obtain ⟨noSamples, noPrints⟩ : l.samples = [] ∧ l.prints = [] := by
    simpa [SpanLeg.contributes] using empty
  have pooled := pooled_snoc legs l
  rw [noSamples, noPrints, List.append_nil, List.append_nil] at pooled
  rw [add_excluded empty]
  constructor
  · rw [pooled.1]
    exact g.samples
  · rw [pooled.1]
    exact g.high
  · rw [pooled.1]
    exact g.low
  · rw [pooled.1]
    exact g.means
  · rw [pooled.2]
    exact g.trades
  · rw [pooled.2]
    exact g.volume
  · rw [pooled.2]
    exact g.vwaps
  · simpa [noSamples] using g.integrityFloor
  · simpa [empty] using g.floor
  · simpa [empty] using g.maxLagMs
  · simpa [empty] using g.venuesUsed
  · simp [empty, g.excluded]

theorem gathered_contributing (g : Gathered legs t) {l : SpanLeg spanMs}
    (contributes : l.contributes = true) : Gathered (legs ++ [l]) (t.add spanMs l.leg) := by
  obtain ⟨w, source⟩ : ∃ w, l.source = some w := by
    cases source : l.source with
    | none => simp [SpanLeg.contributes, SpanLeg.samples, SpanLeg.prints, source] at contributes
    | some w => exact ⟨w, rfl⟩
  have samples : l.samples = w.samples := by rw [SpanLeg.samples, source]; rfl
  have prints : l.prints = w.prints := by rw [SpanLeg.prints, source]; rfl
  have pooled := pooled_snoc legs l
  rw [samples, prints] at pooled
  rw [add_contributing source contributes]
  constructor
  · rw [pooled.1, List.length_append, ← g.samples]
  · rw [pooled.1, List.map_append, max?_append, ← g.high]
  · rw [pooled.1, List.map_append, min?_append, ← g.low]
  · rw [pooled.1, List.map_append, List.sum_append]
    push_cast
    refine g.means.add (weighed_near (Nat.cast_nonneg _) ?_)
    intro none
    rw [List.length_eq_zero_iff.mp (Nat.cast_eq_zero.mp none)]
    rfl
  · rw [pooled.2, List.length_append, ← g.trades]
  · rw [pooled.2, volumeOf_append, ← g.volume]
  · rw [pooled.2, paidFor_append]
    exact g.vwaps.add (weighed_near (volumeOf_nonneg w.nonneg) (paidFor_empty w.nonneg))
  · have last : (([l].filter (fun l => !l.samples.isEmpty)).filterMap
        SpanLeg.integrityFloor).min? = w.reading.integrityFloor := by
      have own : l.integrityFloor = w.reading.integrityFloor := by
        rw [SpanLeg.integrityFloor, source]
        rfl
      obtain ⟨label, trusted, reading⟩ := w.reading_eq
      rw [reading] at own ⊢
      cases held : w.samples with
      | nil =>
        rw [held] at samples
        rw [List.filter_cons, samples]
        rfl
      | cons x rest =>
        rw [held] at samples own
        simp [own, samples, readingOf]
    rw [List.filter_append, List.filterMap_append, min?_append, ← g.integrityFloor, last]
  · have own : l.trustedMs = some w.reading.trustedMs := by
      rw [SpanLeg.trustedMs, source]
      rfl
    rw [List.filter_append, List.filterMap_append, min?_append, ← g.floor]
    simp [contributes, own]
  · rw [List.filter_append, List.map_append, max?_append, g.maxLagMs]
    cases (((legs.filter SpanLeg.contributes).map (fun l => l.leg.lagMs)).max?) with
    | none => simp [contributes, maxOpt]
    | some lag => simp [contributes, maxOpt]
  · simp [contributes, g.venuesUsed]
  · simpa [contributes] using g.excluded

theorem gathered_add (g : Gathered legs t) (l : SpanLeg spanMs) :
    Gathered (legs ++ [l]) (t.add spanMs l.leg) := by
  cases contributes : l.contributes with
  | true => exact gathered_contributing g contributes
  | false => exact gathered_excluded g contributes

theorem gathered_run (legs : List (SpanLeg spanMs)) :
    Gathered legs ((legs.map SpanLeg.leg).foldl (SpanTotals.add spanMs) SpanTotals.zero) := by
  induction legs using List.reverseRecOn with
  | nil =>
    constructor <;> first | rfl | exact near_refl (by simp [SpanTotals.zero])
  | append_singleton legs l ih =>
    rw [List.map_append, List.foldl_append]
    exact gathered_add ih l

theorem pooled_mean_within {samples : List Sample} {total : ℚ}
    (near : Near half samples.length total (samples.map Sample.mid).sum) :
    Within (1 / 10 ^ 8) (if samples.length = 0 then none
      else some (roundDp midScale (total / samples.length))) (meanOf samples) := by
  rw [meanOf]
  cases samples with
  | nil => exact trivial
  | cons x samples =>
    rw [if_neg (List.cons_ne_nil x samples), if_neg (by simp)]
    exact merged_within (by rw [List.length_cons]; positivity) near

theorem pooled_vwap_within {prints : List Print} (valid : ∀ p ∈ prints, 0 ≤ p.qty) {total : ℚ}
    (near : Near half (volumeOf prints) total (paidFor prints)) :
    Within (1 / 10 ^ 8) (if prints.length = 0 ∨ volumeOf prints = 0 then none
      else some (roundDp midScale (total / volumeOf prints))) (vwapOf prints) := by
  rw [vwapOf]
  by_cases empty : volumeOf prints = 0
  · rw [if_pos empty, if_pos (.inr empty)]
    exact trivial
  · have filled : prints.length ≠ 0 := by
      intro none
      rw [List.length_eq_zero_iff.mp none] at empty
      exact empty rfl
    rw [if_neg empty, if_neg (not_or.mpr ⟨filled, empty⟩)]
    exact merged_within ((volumeOf_nonneg valid).lt_of_ne' empty) near

theorem pooled_nonneg (legs : List (SpanLeg spanMs)) : ∀ p ∈ pooledPrints legs, 0 ≤ p.qty := by
  intro p mem
  obtain ⟨l, _, own⟩ := List.mem_flatMap.mp mem
  exact l.nonneg p own

theorem pooled_consolidated (legs : List (SpanLeg spanMs)) :
    Pooled legs (consolidateSpan (legs.map SpanLeg.leg) spanMs) := by
  have g := gathered_run legs
  rw [consolidateSpan]
  generalize (legs.map SpanLeg.leg).foldl (SpanTotals.add spanMs) SpanTotals.zero = t at g
  constructor
  · rfl
  · exact g.samples
  · exact g.high
  · exact g.low
  · have near := g.means
    dsimp only
    rw [g.samples] at near ⊢
    exact pooled_mean_within near
  · exact g.trades
  · dsimp only
    rw [g.trades, g.volume]
    simp only [List.length_eq_zero_iff]
  · have near := g.vwaps
    dsimp only
    rw [g.volume] at near ⊢
    rw [g.trades]
    exact pooled_vwap_within (pooled_nonneg legs) near
  · exact g.integrityFloor
  · exact congrArg (Option.getD · 0) g.floor
  · exact g.maxLagMs
  · exact g.venuesUsed
  · exact g.excluded

/-- A span that a leg publishes is consolidated once. -/
theorem consolidated_once (legs : List WindowLeg) (spanMs : Nat) :
    (consolidateWindows legs).filter (fun r => r.spanMs = spanMs) =
      if spanMs ∈ legs.flatMap (fun leg => leg.windows.map WindowReading.spanMs) then
        [consolidateSpan legs spanMs] else [] := by
  rw [consolidateWindows]
  generalize legs.flatMap (fun leg => leg.windows.map WindowReading.spanMs) = spans
  have sorted := List.pairwise_insertionSort (· ≤ ·) spans
  have label : ∀ span, (consolidateSpan legs span).spanMs = span := fun _ => rfl
  rw [sorted.destutter_eq_dedup, List.filter_map]
  have same : (spans.insertionSort (· ≤ ·)).dedup.filter
      ((fun r => decide (r.spanMs = spanMs)) ∘ consolidateSpan legs) =
        (spans.insertionSort (· ≤ ·)).dedup.filter (· = spanMs) :=
    List.filter_congr fun span _ => by rw [Function.comp_apply, label]
  rw [same, List.filter_eq]
  split
  · rename_i published
    have mem : spanMs ∈ (spans.insertionSort (· ≤ ·)).dedup :=
      List.mem_dedup.mpr ((List.mem_insertionSort _).mpr published)
    rw [List.count_eq_one_of_mem (List.nodup_dedup _) mem]
    rfl
  · rename_i missing
    have absent : spanMs ∉ (spans.insertionSort (· ≤ ·)).dedup := fun mem =>
      missing ((List.mem_insertionSort _).mp (List.mem_dedup.mp mem))
    rw [List.count_eq_zero.mpr absent]
    rfl

theorem published_iff (legs : List (SpanLeg spanMs)) :
    spanMs ∈ (legs.map SpanLeg.leg).flatMap (fun leg => leg.windows.map WindowReading.spanMs) ↔
      legs.any (fun l => l.source.isSome) = true := by
  have each : ∀ l : SpanLeg spanMs,
      spanMs ∈ l.leg.windows.map WindowReading.spanMs ↔ l.source.isSome = true := by
    intro l
    have found := congrArg Option.isSome l.read
    rw [Option.isSome_map] at found
    rw [← found, List.find?_isSome, List.mem_map]
    simp only [decide_eq_true_eq]
  rw [List.mem_flatMap, List.any_eq_true]
  constructor
  · rintro ⟨_, mem, there⟩
    obtain ⟨l, own, rfl⟩ := List.mem_map.mp mem
    exact ⟨l, own, (each l).mp there⟩
  · rintro ⟨l, own, source⟩
    exact ⟨l.leg, List.mem_map_of_mem own, (each l).mpr source⟩

/-- The windows of one span, consolidated over any number of legs, are one window over all that
the legs sampled and printed. -/
theorem windows_pooled (spanMs : Nat) (legs : List (SpanLeg spanMs)) :
    (consolidateWindows (legs.map SpanLeg.leg)).filter (fun r => r.spanMs = spanMs) =
        (if legs.any (fun l => l.source.isSome) then
          [consolidateSpan (legs.map SpanLeg.leg) spanMs] else []) ∧
      Pooled legs (consolidateSpan (legs.map SpanLeg.leg) spanMs) := by
  refine ⟨?_, pooled_consolidated legs⟩
  rw [consolidated_once]
  simp only [published_iff]

theorem mem_elim {S T : Type} {o : Option S} {f : S → List T} {x : T} (mem : x ∈ o.elim [] f) :
    ∃ a, o = some a ∧ x ∈ f a := by
  cases o with
  | none => cases mem
  | some a => exact ⟨a, rfl, mem⟩

/-- The windows that a run of observations and prints delivers are a leg of any span. -/
theorem delivered_leg (spanMs : Nat) (venue : VenueId) (lagMs : Nat) (spec : WindowSpec)
    (origin : IngestTime) (calls : List Call) (now : IngestTime)
    (valid : ∀ c ∈ calls, ∀ p, c.print = some p → 0 ≤ p.qty) : ∃ l : SpanLeg spanMs,
      l.leg = ⟨venue, lagMs, ((exec step (RollingWindows.new spec origin) calls).read now).1⟩ ∧
        (∀ x ∈ l.samples, x ∈ calls.filterMap Call.sample) ∧
        ∀ p ∈ l.prints, p ∈ calls.filterMap Call.print := by
  obtain ⟨r, run, samples, prints⟩ := recorded_run spec origin calls valid
  have place : 0 < r.ring.ring := by
    rw [run, run_ring, new_ring]
    have some_place : 0 < u64Max := by decide
    omega
  obtain ⟨q, charged, grown⟩ := recorded_charge r place now
  have windows : ((exec step (RollingWindows.new spec origin) calls).read now).1 =
      q.ring.spec.spans.map (fun span => q.ring.readSpan span (q.ring.indexAt now)) := by
    rw [charged, run]
    rfl
  let source := (q.ring.spec.spans.find? (fun span =>
    (q.ring.readSpan span (q.ring.indexAt now)).spanMs = spanMs)).map
      (fun span => Window.mk q span (q.ring.indexAt now))
  have own : ∀ w, source = some w → w.recorded = q := by
    intro w found
    obtain ⟨span, _, rfl⟩ := Option.map_eq_some_iff.mp found
    rfl
  refine ⟨⟨⟨venue, lagMs, _⟩, source, ?_⟩, rfl, ?_, ?_⟩
  · dsimp only [source]
    rw [windows, List.find?_map, Option.map_map]
    rfl
  · intro x mem
    obtain ⟨w, found, held⟩ := mem_elim mem
    obtain ⟨i, _, there⟩ := List.mem_flatMap.mp held
    rw [own w found] at there
    exact (grown.samples i x there).elim (samples i x) nofun
  · intro p mem
    obtain ⟨w, found, held⟩ := mem_elim mem
    obtain ⟨i, _, there⟩ := List.mem_flatMap.mp held
    rw [own w found] at there
    exact (grown.prints i p there).elim (prints i p) nofun

end Pooling

end PooledWindows
