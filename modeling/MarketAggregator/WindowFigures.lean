import MarketAggregator.FigureBounds
import MarketAggregator.WindowHistory

/-!
# The figures of windows within limits

A bucket sums up its own samples and prints, a reading those of the buckets of its window, and
a merged window the rounded means of its legs. When every bucket keeps within the limits of one
and there is room for the buckets of all legs, all of their figures fit, and the sums that they
are rounded to keep within the limits as well.
-/

namespace WindowFigures

open Clocks CrossTouch DecimalFigures DecimalRounding Decimals FigureBounds GuardedRuns OrderBook
  RoundedWindows WindowBuckets WindowHistory

variable {n : Nat} (l : Limits n)

/-- The sums over the samples of so many buckets, and the prices that are kept of them. -/
structure Sampled (k samples : Nat) (sumMid sumSpread : ℚ) (prices : Set ℚ) : Prop where
  count : samples ≤ k * l.samples
  mids : Mids l l.least samples sumMid
  spread : |sumSpread| ≤ samples * l.most
  priced : ∀ x ∈ prices, l.Priced x

def bucketPrices (b : Bucket) : Set ℚ :=
  {x | b.first = some x ∨ b.last = some x ∨ b.high = some x ∨ b.low = some x}

def totalsPrices (t : RollingWindows.Totals) : Set ℚ :=
  {x | t.first = some x ∨ t.last = some x ∨ t.high = some x ∨ t.low = some x}

/-- A bucket within the limits of one. -/
structure BucketHeld (b : Bucket) : Prop where
  sampled : Sampled l 1 b.samples b.sumMid b.sumSpread (bucketPrices b)
  traded : Traded l l.turnover 1 b.sumQty b.sumPriceQty

/-- The sums of a reading within the limits of so many buckets. -/
structure TotalsHeld (k : Nat) (t : RollingWindows.Totals) : Prop where
  sampled : Sampled l k t.samples t.sumMid t.sumSpread (totalsPrices t)
  traded : Traded l l.turnover k t.sumQty t.sumPriceQty

/-- A reading of so many buckets. -/
structure Reads (k : Nat) (w : WindowReading) : Prop where
  count : w.samples ≤ k * l.samples
  mean : ∀ mean, w.mean = some mean → 0 ≤ mean ∧ mean ≤ l.most
  high : ∀ x, w.high = some x → l.Priced x
  low : ∀ x, w.low = some x → l.Priced x
  traded : ∀ volume vwap, w.volume = some volume → w.vwap = some vwap →
    Traded l (l.turnover + l.volume) k volume (vwap * volume)

/-- The sums of a merged window within the limits of so many buckets. -/
structure SpanHeld (k : Nat) (t : SpanTotals) : Prop where
  count : t.samples ≤ k * l.samples
  mids : Mids l 0 t.samples t.sumMeanWeighted
  high : ∀ x, t.high = some x → l.Priced x
  low : ∀ x, t.low = some x → l.Priced x
  traded : Traded l (l.turnover + l.volume) k t.sumVolume t.sumVwapWeighted

section Windows

variable {l} {r : Rounding} {b : Bucket} {t : RollingWindows.Totals} {k : Nat}

theorem maxOpt_some {a c : Option ℚ} {x : ℚ} (h : maxOpt a c = some x) :
    a = some x ∨ c = some x := by
  cases a with
  | none => exact .inr h
  | some a =>
    cases c with
    | none => exact .inl h
    | some c =>
      obtain rfl := Option.some.inj h
      exact (max_choice a c).imp (congrArg some ·.symm) (congrArg some ·.symm)

theorem minOpt_some {a c : Option ℚ} {x : ℚ} (h : minOpt a c = some x) :
    a = some x ∨ c = some x := by
  cases a with
  | none => exact .inr h
  | some a =>
    cases c with
    | none => exact .inl h
    | some c =>
      obtain rfl := Option.some.inj h
      exact (min_choice a c).imp (congrArg some ·.symm) (congrArg some ·.symm)

theorem or_some {a c : Option ℚ} {x : ℚ} (h : a.or c = some x) : a = some x ∨ c = some x :=
  (Option.or_eq_some_iff.mp h).imp_right And.right

theorem Sampled.mono {samples j : Nat} {sumMid sumSpread : ℚ} {prices : Set ℚ}
    (sampled : Sampled l k samples sumMid sumSpread prices) (le : k ≤ j) :
    Sampled l j samples sumMid sumSpread prices :=
  { sampled with count := sampled.count.trans (Nat.mul_le_mul_right _ le) }

theorem TotalsHeld.mono {j : Nat} (held : TotalsHeld l k t) (le : k ≤ j) : TotalsHeld l j t :=
  ⟨held.sampled.mono le, held.traded.mono le⟩

theorem bucketHeld_blank (index : Option Nat) : BucketHeld l (Bucket.blank index) where
  sampled := by
    refine ⟨Nat.zero_le _, mids_zero, ?_, ?_⟩
    · simp [Bucket.blank]
    · rintro x (first | last | high | low)
      · cases first
      · cases last
      · cases high
      · cases low
  traded := traded_zero

theorem totalsHeld_zero : TotalsHeld l 0 .zero where
  sampled := by
    refine ⟨Nat.zero_le _, mids_zero, ?_, ?_⟩
    · simp [RollingWindows.Totals.zero]
    · rintro x (first | last | high | low)
      · cases first
      · cases last
      · cases high
      · cases low
  traded := traded_zero

theorem prices_record {mid spread x : ℚ} {integrity : Integrity}
    (kept : x ∈ bucketPrices (record r b mid spread integrity)) : x ∈ bucketPrices b ∨ x = mid := by
  have own : some mid = some x → x = mid := fun same => (Option.some.inj same).symm
  rcases kept with first | last | high | low
  · exact (or_some first).imp .inl own
  · exact .inr (own last)
  · exact (maxOpt_some high).imp (fun old => .inr (.inr (.inl old))) own
  · exact (minOpt_some low).imp (fun old => .inr (.inr (.inr old))) own

/-- One sample fits the bucket that has room for it. -/
theorem record_fits (r : Rounding) {mid spread : ℚ} (some_bucket : 1 ≤ n) (priced : l.Priced mid)
    (crossed : |spread| ≤ l.most) (integrity : Integrity) (held : BucketHeld l b)
    (room : b.samples < l.samples) : (∀ q ∈ recordFigures b mid spread, Fits q) ∧
      BucketHeld l (record r b mid spread integrity) := by
  have few : b.samples + 1 ≤ n * l.samples := room.trans_le (Nat.le_mul_of_pos_left _ some_bucket)
  have one : |spread| ≤ (1 : Nat) * l.most := by simpa using crossed
  obtain ⟨sum, mids⟩ := held.sampled.mids.add r (grain_least l) (mids_one priced.1 priced.2) few
  obtain ⟨apart, spreads⟩ := spreads_fit r held.sampled.spread one few
  refine ⟨?_, ⟨?_, mids, spreads, ?_⟩, held.traded⟩
  · simp only [recordFigures, List.forall_mem_cons]
    exact ⟨sum, apart, List.forall_mem_nil _⟩
  · rw [one_mul]
    exact room
  · intro x kept
    rcases prices_record kept with old | rfl
    · exact held.sampled.priced x old
    · exact priced

theorem prices_totalsAdd {resolution : Nat} {x : ℚ} (some_sample : b.samples ≠ 0)
    (kept : x ∈ totalsPrices (totalsAdd r resolution t b)) :
    x ∈ totalsPrices t ∨ x ∈ bucketPrices b := by
  simp only [totalsPrices, totalsAdd, RollingWindows.Totals.add, some_sample, if_false] at kept
  rcases kept with first | last | high | low
  · exact (or_some first).imp .inl .inl
  · exact (or_some last).symm.imp (fun old => .inr (.inl old)) (fun new => .inr (.inl new))
  · exact (maxOpt_some high).imp (fun old => .inr (.inr (.inl old)))
      (fun new => .inr (.inr (.inl new)))
  · exact (minOpt_some low).imp (fun old => .inr (.inr (.inr old)))
      (fun new => .inr (.inr (.inr new)))

/-- The sums with one more bucket fit when there is room for it. -/
theorem totalsAdd_fits (r : Rounding) (resolution : Nat) (held : TotalsHeld l k t)
    (more : BucketHeld l b) (room : k + 1 ≤ n) : (∀ q ∈ totalsAddFigures t b, Fits q) ∧
      TotalsHeld l (k + 1) (totalsAdd r resolution t b) := by
  obtain ⟨qty, paid, traded⟩ := held.traded.add r (Nat.le_add_right _ _) more.traded room
  by_cases empty : b.samples = 0
  · have idle : (totalsAdd r resolution t b).samples = t.samples ∧
        (totalsAdd r resolution t b).sumMid = t.sumMid ∧
        (totalsAdd r resolution t b).sumSpread = t.sumSpread ∧
        totalsPrices (totalsAdd r resolution t b) = totalsPrices t := by
      simp [totalsAdd, RollingWindows.Totals.add, totalsPrices, empty]
    obtain ⟨samples, mid, spread, prices⟩ := idle
    constructor
    · simp only [totalsAddFigures, empty, if_true, List.append_nil, List.forall_mem_cons]
      exact ⟨qty, paid, List.forall_mem_nil _⟩
    · refine ⟨?_, traded⟩
      rw [samples, mid, spread, prices]
      exact held.sampled.mono (Nat.le_succ k)
  · have count : t.samples + b.samples ≤ (k + 1) * l.samples := by
      have one := more.sampled.count
      rw [Nat.add_mul]
      exact Nat.add_le_add held.sampled.count one
    have few := count.trans (Nat.mul_le_mul_right _ room)
    obtain ⟨mid, mids⟩ := held.sampled.mids.add r (grain_least l) more.sampled.mids few
    obtain ⟨spread, spreads⟩ := spreads_fit r held.sampled.spread more.sampled.spread few
    have sums : (totalsAdd r resolution t b).samples = t.samples + b.samples ∧
        (totalsAdd r resolution t b).sumMid = r.add t.sumMid b.sumMid ∧
        (totalsAdd r resolution t b).sumSpread = r.add t.sumSpread b.sumSpread := by
      simp [totalsAdd, RollingWindows.Totals.add, empty]
    obtain ⟨samples, sumMid, sumSpread⟩ := sums
    constructor
    · simp only [totalsAddFigures, empty, if_false, List.cons_append, List.nil_append,
        List.forall_mem_cons]
      exact ⟨qty, paid, mid, spread, List.forall_mem_nil _⟩
    · refine ⟨⟨?_, ?_, ?_, ?_⟩, traded⟩
      · rw [samples]
        exact count
      · rw [samples, sumMid]
        exact mids
      · rw [samples, sumSpread]
        exact spreads
      · intro x kept
        exact (prices_totalsAdd empty kept).elim (held.sampled.priced x) (more.sampled.priced x)

theorem TotalsHeld.few (held : TotalsHeld l k t) (room : k ≤ n) : t.samples ≤ n * l.samples :=
  held.sampled.count.trans (Nat.mul_le_mul_right _ room)

theorem reading_fits (r : Rounding) (held : TotalsHeld l k t) (room : k ≤ n) :
    ∀ q ∈ readingFigures r t, Fits q := by
  have priced := held.sampled.priced
  rw [readingFigures, List.forall_mem_append]
  constructor
  · split
    · rename_i traded
      obtain ⟨vwap, -⟩ := held.traded.vwap r (Nat.le_add_right _ _) traded.2 room
      rw [List.forall_mem_singleton]
      exact vwap
    · exact List.forall_mem_nil _
  · split
    · exact List.forall_mem_nil _
    · rename_i some_sample
      obtain ⟨mean, -⟩ := held.sampled.mids.mean r (grain_least l) some_sample
      have range := range_fits r (grain_least l) held.sampled.mids some_sample
        (fun x high => priced x (.inr (.inr (.inl high))))
        (fun x low => priced x (.inr (.inr (.inr low))))
      simp only [List.forall_mem_append, List.forall_mem_singleton]
      refine ⟨⟨⟨mean, ?_⟩, range⟩, ?_⟩
      · split
        · rename_i first last started ended
          have opened : l.Priced first := priced _ (.inl started)
          have closed : l.Priced last := priced _ (.inr (.inl ended))
          obtain ⟨apart, change⟩ := difference_fits r closed opened
          split
          · exact List.forall_mem_nil _
          · rw [List.forall_mem_cons]
            exact ⟨apart, price_bps_fits change opened⟩
        · exact List.forall_mem_nil _
      · split
        · exact List.forall_mem_nil _
        · rename_i some_mid
          have spread := spread_bps_fits (r := r) (held.few room) held.sampled.mids
            held.sampled.spread some_mid
          exact spread

/-- What a reading tells of the sums. -/
theorem reading_reads (r : Rounding) (held : TotalsHeld l k t) (room : k ≤ n) (spanMs : Nat) :
    Reads l k (reading r t spanMs) := by
  have priced := held.sampled.priced
  have shape : (reading r t spanMs).samples = t.samples ∧ (reading r t spanMs).high = t.high ∧
      (reading r t spanMs).low = t.low ∧
      (reading r t spanMs).volume = (if 0 < t.trades then some t.sumQty else none) ∧
      (reading r t spanMs).vwap = (if 0 < t.trades then
        if t.sumQty = 0 then none else some (roundDp midScale (r.div t.sumPriceQty t.sumQty))
        else none) := by
    rw [reading, RollingWindows.Totals.reading]
    split <;> exact ⟨rfl, rfl, rfl, rfl, rfl⟩
  obtain ⟨samples, high, low, volume, vwap⟩ := shape
  constructor
  · rw [samples]
    exact held.sampled.count
  · intro mean found
    by_cases empty : t.samples = 0
    · simp [reading, RollingWindows.Totals.reading, WindowReading.empty, empty] at found
    · simp only [reading, if_neg empty, Option.some.injEq] at found
      rw [← found]
      exact held.sampled.mids.rounded r (grain_least l) empty
  · rw [high]
    exact fun x top => priced x (.inr (.inr (.inl top)))
  · rw [low]
    exact fun x bottom => priced x (.inr (.inr (.inr bottom)))
  · rw [volume, vwap]
    intro bought mean some_volume some_mean
    by_cases traded : 0 < t.trades
    · rw [if_pos traded] at some_volume some_mean
      obtain rfl := Option.some.inj some_volume
      split at some_mean
      · cases some_mean
      · rename_i some_qty
        obtain rfl := Option.some.inj some_mean
        obtain ⟨-, worth⟩ := held.traded.vwap r (Nat.le_add_right _ _) some_qty room
        exact ⟨held.traded.lot, held.traded.volume, worth⟩
    · rw [if_neg traded] at some_volume
      cases some_volume

end Windows

/-- Every bucket of a ring is within the limits of one. -/
def Held (s : RollingWindows) : Prop := ∀ b ∈ s.buckets, BucketHeld l b

section Rings

variable {l} {r : Rounding} {s : RollingWindows} {t : RollingWindows.Totals} {k : Nat}

theorem slot_mem {i : Nat} {b : Bucket} (held : s.slot i = some b) : b ∈ s.buckets :=
  List.mem_of_getElem? (Option.filter_eq_some_iff.mp held).1

/-- One more bucket, if the ring holds it. -/
theorem addSlot_fits (r : Rounding) (held : Held l s) (i : Nat) (sums : TotalsHeld l k t)
    (room : k + 1 ≤ n) : (∀ q ∈ (s.slot i).elim [] (totalsAddFigures t), Fits q) ∧
      TotalsHeld l (k + 1) (addSlot r s t i) := by
  rw [addSlot]
  cases slot : s.slot i with
  | none => exact ⟨List.forall_mem_nil _, sums.mono (Nat.le_succ k)⟩
  | some b => exact totalsAdd_fits r s.spec.resolution sums (held b (slot_mem slot)) room

/-- The sums over as many buckets as there is room for. -/
theorem totals_fit (r : Rounding) (held : Held l s) (indices : List Nat)
    (sums : TotalsHeld l k t) (room : k + indices.length ≤ n) :
    (∀ q ∈ outputs (addSlot r s) (fun t i => (s.slot i).elim [] (totalsAddFigures t)) t indices,
        Fits q) ∧
      TotalsHeld l (k + indices.length) (exec (addSlot r s) t indices) := by
  induction indices generalizing t k with
  | nil => exact ⟨List.forall_mem_nil _, sums⟩
  | cons i indices ih =>
    rw [List.length_cons] at room ⊢
    obtain ⟨one, more⟩ := addSlot_fits r held i sums (by omega)
    obtain ⟨fits, rest⟩ := ih more (by omega)
    refine ⟨?_, rest.mono (by omega)⟩
    rw [outputs, List.forall_mem_append]
    exact ⟨one, fits⟩

theorem Reads.mono {j : Nat} {w : WindowReading} (reads : Reads l k w) (le : k ≤ j) :
    Reads l j w where
  count := reads.count.trans (Nat.mul_le_mul_right _ le)
  mean := reads.mean
  high := reads.high
  low := reads.low
  traded volume vwap some_volume some_vwap :=
    (reads.traded volume vwap some_volume some_vwap).mono le

theorem reads_empty (spanMs : Nat) : Reads l k (WindowReading.empty spanMs) where
  count := Nat.zero_le _
  mean _ found := by cases found
  high _ found := by cases found
  low _ found := by cases found
  traded _ _ found := by cases found

/-- A window covers no more buckets than its span needs, and one at least. -/
theorem readSpan_fits (r : Rounding) (held : Held l s) (span current : Nat)
    (room : max 1 (bucketsFor span s.spec.resolution) ≤ n) :
    (∀ q ∈ readSpanFigures r s span current, Fits q) ∧
      Reads l (max 1 (bucketsFor span s.spec.resolution)) (readSpan r s span current) := by
  cases current with
  | zero => exact ⟨List.forall_mem_nil _, reads_empty _⟩
  | succ newest =>
    have length : newest + 1 - (newest - (bucketsFor span s.spec.resolution - 1)) ≤
        max 1 (bucketsFor span s.spec.resolution) := by
      omega
    obtain ⟨fits, sums⟩ := totals_fit r held
      (List.range' (newest - (bucketsFor span s.spec.resolution - 1))
        (newest + 1 - (newest - (bucketsFor span s.spec.resolution - 1))))
      totalsHeld_zero (by rw [List.length_range']; omega)
    rw [List.length_range', Nat.zero_add] at sums
    have within := length.trans room
    refine ⟨?_, (reading_reads r sums within _).mono length⟩
    rw [readSpanFigures, List.forall_mem_append]
    exact ⟨fits, reading_fits r sums within⟩

end Rings

section Writes

variable {l} {r : Rounding} {s t : RollingWindows} {b c : Bucket} {i j : Nat}
  {write : Bucket → Bucket}

/-- No more samples, no more volume and no more turnover. -/
structure Lighter (b c : Bucket) : Prop where
  samples : b.samples ≤ c.samples
  volume : b.sumQty ≤ c.sumQty
  turnover : |b.sumPriceQty| ≤ |c.sumPriceQty|

theorem Lighter.refl (b : Bucket) : Lighter b b := ⟨le_rfl, le_rfl, le_rfl⟩

theorem Lighter.trans {d : Bucket} (first : Lighter b c) (second : Lighter c d) : Lighter b d :=
  ⟨first.samples.trans second.samples, first.volume.trans second.volume,
    first.turnover.trans second.turnover⟩

theorem blank_lighter (index : Option Nat) (held : BucketHeld l b) :
    Lighter (Bucket.blank index) b := by
  refine ⟨Nat.zero_le _, held.traded.nonneg, ?_⟩
  rw [Bucket.blank, abs_zero]
  exact abs_nonneg _

theorem writable_held (held : Held l s) (i : Nat) : BucketHeld l (writable s i) := by
  rw [writable]
  split
  · rw [List.getD_eq_getElem?_getD]
    cases place : s.buckets[s.place i]? with
    | none => exact bucketHeld_blank none
    | some b => exact held b (List.mem_of_getElem? place)
  · exact bucketHeld_blank _

/-- A write replaces the bucket that it finds. -/
theorem held_slotMut (held : Held l s) (own : BucketHeld l (write (writable s i))) :
    Held l (s.slotMut i write) := by
  intro b mem
  rcases List.mem_or_eq_of_mem_set mem with old | rfl
  · exact held b old
  · exact own

theorem writable_index (s : RollingWindows) (i : Nat) : (writable s i).index = some i := by
  rw [writable]
  split
  · assumption
  · rfl

/-- A later write finds what was written, or a bucket that was not touched, or none. -/
theorem writable_slotMut (write : Bucket → Bucket) (held : Held l s) (keeps : KeepsIndex write)
    (own : BucketHeld l (write (writable s j))) (i : Nat) :
    Lighter (writable (s.slotMut j write) i)
      (if i = j then write (writable s j) else writable s i) := by
  have written : (write (writable s j)).index = some j := (keeps _).trans (writable_index s j)
  have place : (s.slotMut j write).place i = s.place i := slotMut_place
  have buckets : (s.slotMut j write).buckets =
      s.buckets.set (s.place j) (write (writable s j)) := rfl
  rw [writable, place, buckets, List.getD_eq_getElem?_getD, List.getElem?_set]
  by_cases shared : s.place j = s.place i
  · rw [if_pos shared]
    by_cases inside : s.place j < s.buckets.length
    · rw [if_pos inside, Option.getD_some, written]
      by_cases same : i = j
      · subst same
        rw [if_pos rfl, if_pos rfl]
        exact .refl _
      · rw [if_neg (fun eq => same (Option.some.inj eq).symm), if_neg same]
        exact blank_lighter _ (writable_held held i)
    · have none : ((Bucket.blank none).index = some i) = False := by simp [Bucket.blank]
      rw [if_neg inside, Option.getD_none, if_neg (of_eq_false none)]
      split
      · exact blank_lighter _ own
      · exact blank_lighter _ (writable_held held i)
  · have other : i ≠ j := fun same => shared (congrArg s.place same.symm)
    rw [if_neg shared, if_neg other, ← List.getD_eq_getElem?_getD]
    exact .refl _

variable (l) in
/-- Nothing but time is charged. -/
structure Charged (s t : RollingWindows) : Prop where
  spec : t.spec = s.spec
  origin : t.origin = s.origin
  held : Held l s → Held l t
  lighter : Held l s → ∀ i, Lighter (writable t i) (writable s i)

theorem Charged.refl (s : RollingWindows) : Charged l s s :=
  ⟨rfl, rfl, id, fun _ _ => .refl _⟩

theorem Charged.trans {u : RollingWindows} (first : Charged l s t)
    (second : Charged l t u) : Charged l s u where
  spec := second.spec.trans first.spec
  origin := second.origin.trans first.origin
  held held := second.held (first.held held)
  lighter held i := (second.lighter (first.held held) i).trans (first.lighter held i)

theorem charged_held (trusted : Bool) (elapsed : Nat) (held : BucketHeld l b) :
    BucketHeld l (if trusted then b else b.charged elapsed) := by
  cases trusted with
  | true => exact held
  | false => exact ⟨held.sampled, held.traded⟩

theorem charged_slice (s : RollingWindows) (i elapsed : Nat) :
    Charged l s (slice s i elapsed) where
  spec := rfl
  origin := rfl
  held held := held_slotMut held (charged_held s.trusted elapsed (writable_held held i))
  lighter held j := by
    have own := charged_held s.trusted elapsed (writable_held held i)
    refine (writable_slotMut _ held charged_keepsIndex own j).trans ?_
    by_cases same : j = i
    · subst same
      rw [if_pos rfl]
      cases s.trusted <;> exact ⟨le_rfl, le_rfl, le_rfl⟩
    · rw [if_neg same]
      exact .refl _

theorem charged_chargeFrom {last fuel cursor : Nat} :
    Charged l s (RollingWindows.chargeFrom last fuel cursor s) := by
  induction fuel generalizing s cursor with
  | zero => exact .refl s
  | succ fuel ih =>
    rw [RollingWindows.chargeFrom]
    split
    · have turn : ∀ sliceEnd, Charged l s (if sliceEnd ≤ cursor then
            slice s (s.indexOf cursor) (sliceEnd - cursor)
          else RollingWindows.chargeFrom last fuel sliceEnd
            (slice s (s.indexOf cursor) (sliceEnd - cursor))) := by
        intro sliceEnd
        have first := charged_slice (l := l) s (s.indexOf cursor) (sliceEnd - cursor)
        split
        · exact first
        · exact first.trans ih
      exact turn _
    · exact .refl s

theorem charged_charge (l : Limits n) (s : RollingWindows) (now : IngestTime) :
    Charged l s (s.charge now) := by
  rw [RollingWindows.charge]
  split
  · exact .refl s
  · have whole : ∀ cursor, Charged l s
        (RollingWindows.chargeFrom now.mono (now.mono - cursor) cursor s) :=
      fun cursor => charged_chargeFrom
    exact ⟨(whole _).spec, (whole _).origin, (whole _).held, (whole _).lighter⟩

theorem Charged.indexAt (charged : Charged l s t) (now : IngestTime) :
    t.indexAt now = s.indexAt now := by
  rw [RollingWindows.indexAt, RollingWindows.indexOf, charged.spec, charged.origin]
  rfl

/-- The quantities of some prints, each rounded up to a whole number. -/
def wholeVolume : List Print → Nat
  | [] => 0
  | p :: prints => ⌈p.qty⌉₊ + wholeVolume prints

/-- What they come to, rounded up in the same way whatever the sign. -/
def wholeTurnover : List Print → Nat
  | [] => 0
  | p :: prints => ⌈|p.price * p.qty|⌉₊ + wholeTurnover prints

/-- The bucket has room for these prints and for one more sample. Rounding up leaves enough of
it for every sum that is rounded. -/
structure Room (l : Limits n) (b : Bucket) (prints : List Print) : Prop where
  samples : b.samples < l.samples
  volume : ⌈b.sumQty⌉₊ + wholeVolume prints ≤ l.volume
  turnover : ⌈|b.sumPriceQty|⌉₊ + wholeTurnover prints ≤ l.turnover

theorem Room.lighter {prints : List Print} (room : Room l c prints) (less : Lighter b c) :
    Room l b prints where
  samples := less.samples.trans_lt room.samples
  volume := (Nat.add_le_add_right (Nat.ceil_mono less.volume) _).trans room.volume
  turnover := (Nat.add_le_add_right (Nat.ceil_mono less.turnover) _).trans room.turnover

theorem Room.silent {prints : List Print} (room : Room l b prints) : Room l b [] where
  samples := room.samples
  volume := (Nat.add_le_add_left (Nat.zero_le _) _).trans room.volume
  turnover := (Nat.add_le_add_left (Nat.zero_le _) _).trans room.turnover

variable (l) in
/-- A print of nothing, or of one lot at least. -/
def Dealt (p : Print) : Prop := p.qty = 0 ∨ l.lot ≤ p.qty

/-- One print fits the bucket that has room for it, and leaves room for the others. -/
theorem recordTrade_fits (r : Rounding) {p : Print} {prints : List Print} (some_bucket : 1 ≤ n)
    (dealt : Dealt l p) (held : BucketHeld l b) (room : Room l b (p :: prints)) :
    (∀ q ∈ recordTradeFigures r b p.price p.qty, Fits q) ∧
      BucketHeld l (recordTrade r b p.price p.qty) ∧
      Room l (recordTrade r b p.price p.qty) prints := by
  have volume := room.volume
  have turnover := room.turnover
  rw [wholeVolume] at volume
  rw [wholeTurnover] at turnover
  have small := l.moved some_bucket (Nat.le_add_left l.volume l.turnover)
  have cheap := l.moved some_bucket (Nat.le_add_right l.turnover l.volume)
  rw [one_mul] at small cheap
  have quantity : b.sumQty + p.qty ≤ (⌈b.sumQty⌉₊ + ⌈p.qty⌉₊ : Nat) := by
    push_cast
    exact add_le_add (Nat.le_ceil _) (Nat.le_ceil _)
  obtain ⟨qty, lot, bought⟩ := lots_fit r held.traded.lot dealt (by omega) quantity
  obtain ⟨product, paid⟩ := fits_ceil (r.mul_faithful p.price p.qty) (by omega)
  have amount : |b.sumPriceQty + r.mul p.price p.qty| ≤
      (⌈|b.sumPriceQty|⌉₊ + ⌈|p.price * p.qty|⌉₊ : Nat) := by
    push_cast
    exact (abs_add_le _ _).trans (add_le_add (Nat.le_ceil _) paid)
  obtain ⟨sum, spent⟩ := fits_within (r.add_faithful _ _) (by omega) amount
  have filled := Nat.ceil_le.mpr bought
  have moved := Nat.ceil_le.mpr spent
  refine ⟨?_, ⟨held.sampled, lot, ?_, ?_⟩, room.samples, ?_, ?_⟩
  · simp only [recordTradeFigures, List.forall_mem_cons]
    exact ⟨qty, product, sum, List.forall_mem_nil _⟩
  · have whole : ⌈b.sumQty⌉₊ + ⌈p.qty⌉₊ ≤ l.volume := by omega
    rw [Nat.cast_one, one_mul]
    exact bought.trans (by exact_mod_cast whole)
  · have whole : ⌈|b.sumPriceQty|⌉₊ + ⌈|p.price * p.qty|⌉₊ ≤ l.turnover := by omega
    rw [Nat.cast_one, one_mul]
    exact spent.trans (by exact_mod_cast whole)
  · exact (Nat.add_le_add_right filled (wholeVolume prints)).trans (by omega)
  · exact (Nat.add_le_add_right moved (wholeTurnover prints)).trans (by omega)

end Writes

section Observations

variable {l} {r : Rounding} {s : RollingWindows} {now : IngestTime}

/-- The bucket that a write at an instant finds. -/
def bucketAt (s : RollingWindows) (now : IngestTime) : Bucket := writable s (s.indexAt now)

/-- Charging the time leaves room where there was. -/
theorem room_charged (held : Held l s) {prints : List Print}
    (room : Room l (bucketAt s now) prints) : Room l (bucketAt (s.charge now) now) prints := by
  have charged := charged_charge l s now
  rw [bucketAt, charged.indexAt]
  exact room.lighter (charged.lighter held _)

theorem observeTrade_fits (r : Rounding) (some_bucket : 1 ≤ n) (held : Held l s)
    {price qty : Decimal} {prints : List Print} (dealt : Dealt l ⟨valueOf price, valueOf qty⟩)
    (room : Room l (bucketAt s now) (⟨valueOf price, valueOf qty⟩ :: prints)) :
    (∀ q ∈ observeTradeFigures r s price qty now, Fits q) ∧
      Held l (observeTrade r s price qty now) ∧
      Room l (bucketAt (observeTrade r s price qty now) now) prints ∧
      (observeTrade r s price qty now).spec = s.spec := by
  have charged := charged_charge l s now
  have still := charged.held held
  obtain ⟨fits, own, rest⟩ := recordTrade_fits r some_bucket dealt
    (writable_held still ((s.charge now).indexAt now)) (room_charged held room)
  refine ⟨fits, held_slotMut still own, rest.lighter ?_, charged.spec⟩
  have found := writable_slotMut (fun b => recordTrade r b (valueOf price) (valueOf qty))
    still (fun _ => rfl) own ((s.charge now).indexAt now)
  rw [if_pos rfl] at found
  exact found

/-- Sampling a book whose best prices keep within the limits. -/
theorem observe_fits (r : Rounding) (some_bucket : 1 ≤ n) (held : Held l s) {top : TopOfBook}
    (priced : ∀ bid, top.bid = some bid → l.Priced (valueOf bid.price.decimal))
    (offered : ∀ ask, top.ask = some ask → l.Priced (valueOf ask.price.decimal))
    (room : Room l (bucketAt s now) []) :
    (∀ q ∈ observeFigures r s top now, Fits q) ∧ Held l (observe r s top now) ∧
      (observe r s top now).spec = s.spec := by
  have charged := charged_charge l s now
  have still := charged.held held
  rcases top with ⟨bid, ask, state, age⟩
  cases state with
  | uninitialized => exact ⟨List.forall_mem_nil _, still, charged.spec⟩
  | desynced since reason => exact ⟨List.forall_mem_nil _, still, charged.spec⟩
  | live integrity since verified =>
    cases bid with
    | none => exact ⟨List.forall_mem_nil _, still, charged.spec⟩
    | some bid =>
      cases ask with
      | none => exact ⟨List.forall_mem_nil _, still, charged.spec⟩
      | some ask =>
        have low := priced bid rfl
        have high := offered ask rfl
        obtain ⟨apart, spread⟩ := difference_fits r high low
        obtain ⟨sum, half, mid⟩ := mid_fits r low high
        obtain ⟨fits, own⟩ := record_fits r some_bucket mid spread integrity
          (writable_held still ((s.charge now).indexAt now)) (room_charged held room).samples
        refine ⟨?_, held_slotMut (s := { s.charge now with trusted := true }) still own,
          charged.spec⟩
        simp only [observeFigures, List.forall_mem_append, List.forall_mem_cons]
        exact ⟨⟨sum, half, apart, List.forall_mem_nil _⟩, fits⟩

/-- The most buckets that a window of these spans covers. -/
def widest (spec : WindowSpec) : Nat := max 1 (bucketsFor spec.longest spec.resolution)

theorem read_fits (r : Rounding) (held : Held l s) (room : widest s.spec ≤ n)
    (now : IngestTime) : (∀ q ∈ readFigures r s now, Fits q) ∧
      ∀ w ∈ read r s now, Reads l (widest s.spec) w := by
  have charged := charged_charge l s now
  have still := charged.held held
  have covered : ∀ span ∈ (s.charge now).spec.spans,
      max 1 (bucketsFor span (s.charge now).spec.resolution) ≤ widest s.spec := by
    intro span mem
    rw [charged.spec] at mem ⊢
    exact max_le_max_left 1 (bucketsFor_mono _ (le_longest mem))
  constructor
  · intro q mem
    obtain ⟨span, published, mem⟩ := List.mem_flatMap.mp mem
    exact (readSpan_fits r still span _ ((covered span published).trans room)).1 q mem
  · intro w mem
    obtain ⟨span, published, rfl⟩ := List.mem_map.mp mem
    have short := covered span published
    exact (readSpan_fits r still span _ (short.trans room)).2.mono short

end Observations

section Spans

variable {l} {r : Rounding} {t : SpanTotals} {w : WindowReading} {k j : Nat}

theorem spanHeld_zero : SpanHeld l 0 .zero where
  count := Nat.zero_le _
  mids := mids_zero
  high _ found := by cases found
  low _ found := by cases found
  traded := traded_zero

theorem SpanHeld.mono (held : SpanHeld l k t) (le : k ≤ j) : SpanHeld l j t :=
  { held with
    count := held.count.trans (Nat.mul_le_mul_right _ le)
    traded := held.traded.mono le }

/-- A reading without samples, or without prints, changes the sums of the other kind alone. -/
theorem addSamples_prints (r : Rounding) (t : SpanTotals) (w : WindowReading) :
    (addSamples r t w).samples = t.samples ∧ (addSamples r t w).sumVolume = t.sumVolume ∧
      (addSamples r t w).sumVwapWeighted = t.sumVwapWeighted := by
  rw [addSamples, SpanTotals.addSamples]
  split <;> exact ⟨rfl, rfl, rfl⟩

theorem addPrints_samples (r : Rounding) (t : SpanTotals) (w : WindowReading) :
    (addPrints r t w).samples = t.samples ∧
      (addPrints r t w).sumMeanWeighted = t.sumMeanWeighted ∧
      (addPrints r t w).high = t.high ∧ (addPrints r t w).low = t.low := by
  rw [addPrints]
  split <;> exact ⟨rfl, rfl, rfl, rfl⟩

/-- The samples of a reading. It may have some and no mean, which adds nothing. -/
theorem addSamples_fits (r : Rounding) {s : Nat} (reads : Reads l k w)
    (few : s + w.samples ≤ n * l.samples) (mids : Mids l 0 s t.sumMeanWeighted)
    (high : ∀ x, t.high = some x → l.Priced x) (low : ∀ x, t.low = some x → l.Priced x) :
    (∀ q ∈ addSamplesFigures r t w, Fits q) ∧
      Mids l 0 (s + w.samples) (addSamples r t w).sumMeanWeighted ∧
      (∀ x, (addSamples r t w).high = some x → l.Priced x) ∧
      ∀ x, (addSamples r t w).low = some x → l.Priced x := by
  by_cases empty : w.samples = 0
  · simp only [addSamplesFigures, addSamples, SpanTotals.addSamples, empty, if_true, Nat.add_zero]
    exact ⟨List.forall_mem_nil _, mids, high, low⟩
  · have prices : (∀ x, (addSamples r t w).high = some x → l.Priced x) ∧
        ∀ x, (addSamples r t w).low = some x → l.Priced x := by
      simp only [addSamples, SpanTotals.addSamples, empty, if_false]
      exact ⟨fun x top => (maxOpt_some top).elim (high x) (reads.high x),
        fun x bottom => (minOpt_some bottom).elim (low x) (reads.low x)⟩
    cases found : w.mean with
    | none =>
      simp only [addSamplesFigures, addSamples, empty, if_false, found]
      refine ⟨List.forall_mem_nil _, ⟨?_, ?_⟩, prices⟩
      · rw [mul_zero]
        have nonneg := mids.least
        rwa [mul_zero] at nonneg
      · refine mids.most.trans ?_
        gcongr
        exact Nat.le_add_right _ _
    | some mean =>
      obtain ⟨nonneg, small⟩ := reads.mean mean found
      have whole := l.summed ((Nat.le_add_left _ _).trans few)
      have weighed : (0 : ℚ) ≤ mean * w.samples ∧
          mean * w.samples ≤ (w.samples * l.most : Nat) := by
        push_cast
        rw [mul_comm]
        exact ⟨by positivity, by gcongr⟩
      obtain ⟨product, above, below⟩ := fits_between (r.mul_faithful mean w.samples) mem_zero
        (mem_natCast whole) weighed
      rw [Nat.cast_mul] at below
      have own : Mids l 0 w.samples (r.mul mean w.samples) :=
        ⟨by rw [mul_zero]; exact above, below⟩
      obtain ⟨sum, more⟩ := mids.add r grain_zero own few
      simp only [addSamplesFigures, addSamples, empty, if_false, found, List.forall_mem_cons]
      exact ⟨⟨product, sum, List.forall_mem_nil _⟩, more, prices⟩

/-- The prints of a reading. -/
theorem addPrints_fits (r : Rounding) (reads : Reads l k w) (room : j + k ≤ n)
    (traded : Traded l (l.turnover + l.volume) j t.sumVolume t.sumVwapWeighted) :
    (∀ q ∈ addPrintsFigures r t w, Fits q) ∧
      Traded l (l.turnover + l.volume) (j + k) (addPrints r t w).sumVolume
        (addPrints r t w).sumVwapWeighted := by
  have still := traded.mono (Nat.le_add_right j k)
  cases some_volume : w.volume with
  | none =>
    simp only [addPrintsFigures, addPrints, some_volume]
    exact ⟨List.forall_mem_nil _, still⟩
  | some volume =>
    cases some_vwap : w.vwap with
    | none =>
      simp only [addPrintsFigures, addPrints, some_volume, some_vwap]
      exact ⟨List.forall_mem_nil _, still⟩
    | some vwap =>
      have own := reads.traded volume vwap some_volume some_vwap
      have whole := l.moved ((Nat.le_add_left k j).trans room) (le_refl (l.turnover + l.volume))
      have worth := own.turnover
      rw [← Nat.cast_mul] at worth
      obtain ⟨product, weighed⟩ := fits_within (r.mul_faithful vwap volume) whole worth
      rw [Nat.cast_mul] at weighed
      obtain ⟨sum, total, more⟩ := traded.add r le_rfl ⟨own.lot, own.volume, weighed⟩ room
      simp only [addPrintsFigures, addPrints, some_volume, some_vwap, List.forall_mem_cons]
      exact ⟨⟨sum, product, total, List.forall_mem_nil _⟩, more⟩

/-- Every reading of the leg is one of so many buckets. -/
def LegReads (l : Limits n) (k : Nat) (leg : WindowLeg) : Prop := ∀ w ∈ leg.windows, Reads l k w

theorem spanAdd_fits (r : Rounding) (spanMs : Nat) {leg : WindowLeg} (reads : LegReads l k leg)
    (held : SpanHeld l j t) (room : j + k ≤ n) : (∀ q ∈ spanAddFigures r spanMs t leg, Fits q) ∧
      SpanHeld l (j + k) (spanAdd r spanMs t leg) := by
  have still := held.mono (Nat.le_add_right j k)
  cases found : leg.windows.find? (fun w => w.spanMs = spanMs) with
  | none =>
    simp only [spanAddFigures, spanAdd, found]
    exact ⟨List.forall_mem_nil _, { still with }⟩
  | some w =>
    have own := reads w (List.mem_of_find?_eq_some found)
    by_cases idle : w.samples = 0 ∧ w.trades = 0
    · simp only [spanAddFigures, spanAdd, found, if_pos idle]
      exact ⟨List.forall_mem_nil _, { still with }⟩
    · have few : (count t leg w).samples ≤ (j + k) * l.samples := by
        rw [Nat.add_mul]
        exact Nat.add_le_add held.count own.count
      obtain ⟨means, mids, high, low⟩ := addSamples_fits (t := count t leg w) r own
        (few.trans (Nat.mul_le_mul_right _ room)) held.mids held.high held.low
      obtain ⟨samples, volume, weighted⟩ := addSamples_prints r (count t leg w) w
      have traded : Traded l (l.turnover + l.volume) j
          (addSamples r (count t leg w) w).sumVolume
          (addSamples r (count t leg w) w).sumVwapWeighted := by
        rw [volume, weighted]
        exact held.traded
      obtain ⟨prints, more⟩ := addPrints_fits r own room traded
      obtain ⟨kept, sum, top, bottom⟩ := addPrints_samples r (addSamples r (count t leg w) w) w
      have figures : addPrintsFigures r (addSamples r (count t leg w) w) w =
          addPrintsFigures r t w := by
        rw [addPrintsFigures.eq_def, volume, weighted]
        rfl
      rw [figures] at prints
      simp only [spanAddFigures, spanAdd, found, if_neg idle, List.forall_mem_append]
      refine ⟨⟨means, prints⟩, ?_, ?_, ?_, ?_, more⟩
      · rw [kept, samples]
        exact few
      · rw [kept, samples, sum]
        exact mids
      · rw [top]
        exact high
      · rw [bottom]
        exact low

/-- The sums over the legs, as long as there is room for the buckets of all of them. -/
theorem spans_fit (r : Rounding) (spanMs : Nat) (legs : List WindowLeg)
    (reads : ∀ leg ∈ legs, LegReads l k leg) (held : SpanHeld l j t)
    (room : j + legs.length * k ≤ n) :
    (∀ q ∈ outputs (spanAdd r spanMs) (spanAddFigures r spanMs) t legs, Fits q) ∧
      SpanHeld l (j + legs.length * k) (exec (spanAdd r spanMs) t legs) := by
  induction legs generalizing t j with
  | nil => exact ⟨List.forall_mem_nil _, held.mono (Nat.le_add_right _ _)⟩
  | cons leg legs ih =>
    rw [List.length_cons, Nat.succ_mul] at room ⊢
    obtain ⟨own, others⟩ := List.forall_mem_cons.mp reads
    obtain ⟨one, more⟩ := spanAdd_fits r spanMs own held (by omega)
    obtain ⟨fits, rest⟩ := ih others more (by omega)
    refine ⟨?_, rest.mono (by omega)⟩
    rw [outputs, List.forall_mem_append]
    exact ⟨one, fits⟩

theorem span_fits (r : Rounding) (held : SpanHeld l k t) (room : k ≤ n) :
    ∀ q ∈ spanFigures r t, Fits q := by
  rw [spanFigures, List.forall_mem_append]
  constructor
  · split
    · exact List.forall_mem_nil _
    · rename_i some_sample
      obtain ⟨mean, -⟩ := held.mids.mean r grain_zero some_sample
      rw [List.forall_mem_cons]
      exact ⟨mean, range_fits r grain_zero held.mids some_sample held.high held.low⟩
  · split
    · exact List.forall_mem_nil _
    · rename_i traded
      obtain ⟨vwap, -⟩ := held.traded.vwap r le_rfl (fun empty => traded (.inr empty)) room
      rw [List.forall_mem_singleton]
      exact vwap

theorem consolidateWindows_fits (r : Rounding) (legs : List WindowLeg)
    (reads : ∀ leg ∈ legs, LegReads l k leg) (room : legs.length * k ≤ n) :
    ∀ q ∈ consolidateWindowsFigures r legs, Fits q := by
  intro q mem
  obtain ⟨spanMs, -, mem⟩ := List.mem_flatMap.mp mem
  obtain ⟨sums, whole⟩ := spans_fit r spanMs legs reads spanHeld_zero (by omega)
  rw [Nat.zero_add] at whole
  exact (List.mem_append.mp mem).elim (sums q) (span_fits r whole room q)

end Spans

end WindowFigures
