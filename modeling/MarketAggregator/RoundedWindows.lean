import MarketAggregator.DecimalRounding
import MarketAggregator.NodeSnapshots

/-!
# Rolling windows whose sums are rounded

Every sum, product and quotient of the windows is a decimal, so it is rounded each time that it
is computed, and what is rounded is added to. The buckets, the readings and the merged windows
are those of exact arithmetic but for these operations, and with exact arithmetic they are the
same.
-/

namespace RoundedWindows

open AggregatorApply Clocks CrossTouch DecimalRounding Decimals GuardedRuns MarketEvents
  NodeSnapshots OrderBook VenueBooks VenueStreams WindowBuckets

universe u

variable (r : Rounding)

section Windows

def bps (numerator denominator : ℚ) : ℚ :=
  roundDp bpsScale (r.div (r.mul numerator 10000) denominator)

def record (b : Bucket) (mid spread : ℚ) (integrity : Integrity) : Bucket :=
  { b.record mid spread integrity with
    sumMid := r.add b.sumMid mid
    sumSpread := r.add b.sumSpread spread }

def recordTrade (b : Bucket) (price qty : ℚ) : Bucket :=
  { b.recordTrade price qty with
    sumQty := r.add b.sumQty qty
    sumPriceQty := r.add b.sumPriceQty (r.mul price qty) }

def observe (s : RollingWindows) (top : TopOfBook) (now : IngestTime) : RollingWindows :=
  let s := s.charge now
  match top.state with
  | .live integrity _ _ =>
    let s := { s with trusted := true }
    match top.bid, top.ask with
    | some bid, some ask =>
      let bid := valueOf bid.price.decimal
      let ask := valueOf ask.price.decimal
      s.slotMut (s.indexAt now)
        (fun b => record r b (r.div (r.add bid ask) 2) (r.sub ask bid) integrity)
    | _, _ => s
  | _ => { s with trusted := false }

def observeTrade (s : RollingWindows) (price qty : Decimal) (now : IngestTime) : RollingWindows :=
  let s := s.charge now
  s.slotMut (s.indexAt now) (fun b => recordTrade r b (valueOf price) (valueOf qty))

def totalsAdd (resolution : Nat) (t : RollingWindows.Totals) (bucket : Bucket) :
    RollingWindows.Totals :=
  { t.add resolution bucket with
    sumQty := r.add t.sumQty bucket.sumQty
    sumPriceQty := r.add t.sumPriceQty bucket.sumPriceQty
    sumMid := if bucket.samples = 0 then t.sumMid else r.add t.sumMid bucket.sumMid
    sumSpread := if bucket.samples = 0 then t.sumSpread else r.add t.sumSpread bucket.sumSpread }

def reading (t : RollingWindows.Totals) (spanMs : Nat) : WindowReading :=
  let out :=
    { t.reading spanMs with
      vwap := if 0 < t.trades then
          if t.sumQty = 0 then none else some (roundDp midScale (r.div t.sumPriceQty t.sumQty))
        else none }
  if t.samples = 0 then out
  else
    let mean := roundDp midScale (r.div t.sumMid t.samples)
    { out with
      mean := some mean
      changeBps := match t.first, t.last with
        | some first, some last =>
          if first = 0 then none else some (bps r (r.sub last first) first)
        | _, _ => none
      rangeBps := match t.high, t.low with
        | some high, some low => if mean = 0 then none else some (bps r (r.sub high low) mean)
        | _, _ => none
      meanSpreadBps := if t.sumMid = 0 then none else some (bps r t.sumSpread t.sumMid) }

/-- One more bucket of a window, if the ring holds it. -/
def addSlot (s : RollingWindows) (t : RollingWindows.Totals) (index : Nat) :
    RollingWindows.Totals :=
  (s.slot index).elim t (totalsAdd r s.spec.resolution t)

def readSpan (s : RollingWindows) (span current : Nat) : WindowReading :=
  let k := bucketsFor span s.spec.resolution
  let spanMs := millis (min (s.spec.resolution * min k (2 ^ 32 - 1)) durationMax)
  match current with
  | 0 => .empty spanMs
  | newest + 1 =>
    let oldest := newest - (k - 1)
    let indices := List.range' oldest (newest + 1 - oldest)
    reading r (indices.foldl (addSlot r s) .zero) spanMs

def read (s : RollingWindows) (now : IngestTime) : List WindowReading :=
  let s := s.charge now
  s.spec.spans.map (fun span => readSpan r s span (s.indexAt now))

/-- The windows that the aggregator keeps beside a book. -/
def roundedOps : WindowOps RollingWindows := ⟨observe r, observeTrade r⟩

end Windows

section Merged

def addSamples (t : SpanTotals) (w : WindowReading) : SpanTotals :=
  { t.addSamples w with
    sumMeanWeighted := if w.samples = 0 then t.sumMeanWeighted
      else match w.mean with
        | some mean => r.add t.sumMeanWeighted (r.mul mean w.samples)
        | none => t.sumMeanWeighted }

def addPrints (t : SpanTotals) (w : WindowReading) : SpanTotals :=
  match w.volume, w.vwap with
  | some volume, some vwap =>
    { t with
      sumVolume := r.add t.sumVolume volume
      sumVwapWeighted := r.add t.sumVwapWeighted (r.mul vwap volume) }
  | _, _ => t

/-- What is counted of a leg, and not rounded. -/
def count (t : SpanTotals) (leg : WindowLeg) (w : WindowReading) : SpanTotals :=
  { t with
    venuesUsed := t.venuesUsed + 1
    floor := some ((t.floor.map (min · w.trustedMs)).getD w.trustedMs)
    maxLagMs := max t.maxLagMs leg.lagMs
    samples := t.samples + w.samples
    trades := t.trades + w.trades }

def spanAdd (spanMs : Nat) (t : SpanTotals) (leg : WindowLeg) : SpanTotals :=
  match leg.windows.find? (fun w => w.spanMs = spanMs) with
  | none => t.exclude leg.venue .spanNotPublished
  | some w =>
    if w.samples = 0 ∧ w.trades = 0 then t.exclude leg.venue .noData
    else addPrints r (addSamples r (count t leg w) w) w

end Merged

section Runs

variable {σ : Type u} (v : VenueSync σ) (arith : DecimalArith)

/-- A turn of the aggregator. A snapshot charges the windows and adds up nothing that stays. -/
def step (p : Publisher σ) : Turn → Publisher σ
  | .apply message => { p with agg := (apply v arith (roundedOps r) p.agg message).1 }
  | .publish owned now => p.advance owned now

end Runs

section Exact

theorem roundedOps_exact : roundedOps Rounding.exact = windowOps := rfl

theorem totalsAdd_exact : totalsAdd Rounding.exact = fun resolution t => t.add resolution := by
  funext resolution t bucket
  by_cases empty : bucket.samples = 0 <;>
    simp [totalsAdd, RollingWindows.Totals.add, empty, Rounding.exact,
      FaithfulRounding.Arithmetic.exact]

theorem reading_exact (t : RollingWindows.Totals) (spanMs : Nat) :
    reading Rounding.exact t spanMs = t.reading spanMs := by
  rw [reading, RollingWindows.Totals.reading]
  split <;> rfl

/-- Without rounding a read gives what the exact window gives. -/
theorem read_exact (s : RollingWindows) (now : IngestTime) :
    read Rounding.exact s now = (s.read now).1 := by
  have span : ∀ span current, readSpan Rounding.exact (s.charge now) span current =
      (s.charge now).readSpan span current := by
    intro span current
    cases current with
    | zero => rfl
    | succ newest =>
      rw [readSpan, RollingWindows.readSpan, reading_exact]
      unfold addSlot
      rw [totalsAdd_exact]
  simp only [read, RollingWindows.read, span]

theorem addSamples_exact (t : SpanTotals) (w : WindowReading) :
    addSamples Rounding.exact t w = t.addSamples w := by
  rw [addSamples, SpanTotals.addSamples]
  by_cases empty : w.samples = 0
  · simp [empty]
  · cases mean : w.mean with
    | none => simp [empty]
    | some mean => simp [empty, Rounding.exact, FaithfulRounding.Arithmetic.exact]

/-- Without rounding the legs of a span are pooled as the exact model pools them. -/
theorem spanAdd_exact : spanAdd Rounding.exact = SpanTotals.add := by
  funext spanMs t leg
  cases found : leg.windows.find? (fun w => w.spanMs = spanMs) with
  | none => simp only [spanAdd, SpanTotals.add, found]
  | some w =>
    simp only [spanAdd, SpanTotals.add, found, addSamples_exact]
    split
    · rfl
    · by_cases empty : w.samples = 0 <;> simp only [SpanTotals.addSamples, count, empty] <;> rfl

/-- Without rounding these are the turns of the exact model. -/
theorem step_exact {σ : Type u} (v : VenueSync σ) (arith : DecimalArith) :
    step Rounding.exact v arith = NodeSnapshots.step v arith := by
  funext p turn
  cases turn with
  | apply message => rw [step, roundedOps_exact, NodeSnapshots.step]
  | publish owned now => rfl

end Exact

end RoundedWindows
