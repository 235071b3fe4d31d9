import MarketAggregator.RoundedWindows

/-!
# Every figure that decimal arithmetic computes

A decimal has 96 bits, and arithmetic whose result has more of them panics. Beside each
function that adds, subtracts, multiplies or divides decimals stand the exact results of its
operations, in order, each of operands that were rounded before. The figures of a turn are
those of the book that is audited, of the windows that are written, and of everything that is
published.
-/

namespace DecimalFigures

open AggregatorApply Clocks CrossTouch DecimalRounding Decimals DepthAudit GatewayMerge
  GuardedRuns MarketEvents NodeSnapshots OrderBook OrderedMaps RoundedWindows VenueBooks
  VenueStreams WindowBuckets

universe u

variable (r : Rounding)

def bpsFigures (numerator denominator : ℚ) : List ℚ :=
  [numerator * 10000, r.mul numerator 10000 / denominator]

section Book

def guardFigures (best : Price) (side : Side) (guardBps : UInt32) : List ℚ :=
  let best := valueOf best.decimal
  let product := r.mul best guardBps.toNat
  let offset := r.div product 10000
  [best * guardBps.toNat, product / 10000, match side with
    | .bid => best - offset
    | .ask => best + offset]

def auditSideFigures (levels : Levels) (side : Side) (policy : AuditPolicy) : List ℚ :=
  match levels.best side with
  | none => []
  | some best => guardFigures r best.price side policy.guardBps

/-- A side without levels has no guard band. -/
def auditFigures (levels : Levels) (policy : AuditPolicy) : List ℚ :=
  auditSideFigures r levels .bid policy ++ auditSideFigures r levels .ask policy

def spreadFigures (bid ask : ℚ) : List ℚ := [ask - bid, ask + bid, r.add ask bid / 2]

def topFigures (top : TopOfBook) : List ℚ :=
  match top.bid, top.ask with
  | some bid, some ask => spreadFigures r (valueOf bid.price.decimal) (valueOf ask.price.decimal)
  | _, _ => []

end Book

section Windows

def recordFigures (b : Bucket) (mid spread : ℚ) : List ℚ := [b.sumMid + mid, b.sumSpread + spread]

def recordTradeFigures (b : Bucket) (price qty : ℚ) : List ℚ :=
  [b.sumQty + qty, price * qty, b.sumPriceQty + r.mul price qty]

/-- The bucket of a number as a write finds it, cleared when its place holds another one. -/
def writable (s : RollingWindows) (index : Nat) : Bucket :=
  let held := s.buckets.getD (s.place index) (Bucket.blank none)
  if held.index = some index then held else Bucket.blank (some index)

def observeFigures (s : RollingWindows) (top : TopOfBook) (now : IngestTime) : List ℚ :=
  match top.state, top.bid, top.ask with
  | .live .., some bid, some ask =>
    let bid := valueOf bid.price.decimal
    let ask := valueOf ask.price.decimal
    let s := s.charge now
    [bid + ask, r.add bid ask / 2, ask - bid] ++
      recordFigures (writable s (s.indexAt now)) (r.div (r.add bid ask) 2) (r.sub ask bid)
  | _, _, _ => []

def observeTradeFigures (s : RollingWindows) (price qty : Decimal) (now : IngestTime) : List ℚ :=
  let s := s.charge now
  recordTradeFigures r (writable s (s.indexAt now)) (valueOf price) (valueOf qty)

def totalsAddFigures (t : RollingWindows.Totals) (bucket : Bucket) : List ℚ :=
  [t.sumQty + bucket.sumQty, t.sumPriceQty + bucket.sumPriceQty] ++
    if bucket.samples = 0 then []
    else [t.sumMid + bucket.sumMid, t.sumSpread + bucket.sumSpread]

/-- The range in basis points of a mean that is not zero. -/
def rangeFigures (high low : Option ℚ) (mean : ℚ) : List ℚ :=
  match high, low with
  | some high, some low =>
    if mean = 0 then [] else (high - low) :: bpsFigures r (r.sub high low) mean
  | _, _ => []

def readingFigures (t : RollingWindows.Totals) : List ℚ :=
  (if 0 < t.trades ∧ t.sumQty ≠ 0 then [t.sumPriceQty / t.sumQty] else []) ++
    if t.samples = 0 then []
    else
      [t.sumMid / t.samples] ++
        (match t.first, t.last with
          | some first, some last =>
            if first = 0 then [] else (last - first) :: bpsFigures r (r.sub last first) first
          | _, _ => []) ++
        rangeFigures r t.high t.low (roundDp midScale (r.div t.sumMid t.samples)) ++
        if t.sumMid = 0 then [] else bpsFigures r t.sumSpread t.sumMid

def readSpanFigures (s : RollingWindows) (span current : Nat) : List ℚ :=
  match current with
  | 0 => []
  | newest + 1 =>
    let oldest := newest - (bucketsFor span s.spec.resolution - 1)
    let indices := List.range' oldest (newest + 1 - oldest)
    outputs (addSlot r s) (fun t index => (s.slot index).elim [] (totalsAddFigures t)) .zero
        indices ++
      readingFigures r (exec (addSlot r s) .zero indices)

def readFigures (s : RollingWindows) (now : IngestTime) : List ℚ :=
  let s := s.charge now
  s.spec.spans.flatMap (fun span => readSpanFigures r s span (s.indexAt now))

end Windows

section Consolidated

def consolidateFigures (quotes : List (VenueId × TopOfBook)) (policy : CrossPolicy) : List ℚ :=
  let t := quotes.foldl (Touch.quote policy) Touch.empty
  match t.bid, t.ask with
  | some bid, some ask =>
    let bid := valueOf bid.price.decimal
    let ask := valueOf ask.price.decimal
    let mid := r.div (r.add ask bid) 2
    spreadFigures r bid ask ++ if mid = 0 then [] else bpsFigures r (r.sub ask bid) mid
  | _, _ => []

def addSamplesFigures (t : SpanTotals) (w : WindowReading) : List ℚ :=
  if w.samples = 0 then []
  else match w.mean with
    | some mean => [mean * w.samples, t.sumMeanWeighted + r.mul mean w.samples]
    | none => []

def addPrintsFigures (t : SpanTotals) (w : WindowReading) : List ℚ :=
  match w.volume, w.vwap with
  | some volume, some vwap =>
    [t.sumVolume + volume, vwap * volume, t.sumVwapWeighted + r.mul vwap volume]
  | _, _ => []

def spanAddFigures (spanMs : Nat) (t : SpanTotals) (leg : WindowLeg) : List ℚ :=
  match leg.windows.find? (fun w => w.spanMs = spanMs) with
  | none => []
  | some w =>
    if w.samples = 0 ∧ w.trades = 0 then []
    else addSamplesFigures r t w ++ addPrintsFigures r t w

def spanFigures (t : SpanTotals) : List ℚ :=
  (if t.samples = 0 then []
    else
      (t.sumMeanWeighted / t.samples) ::
        rangeFigures r t.high t.low (roundDp midScale (r.div t.sumMeanWeighted t.samples))) ++
    if t.trades = 0 ∨ t.sumVolume = 0 then [] else [t.sumVwapWeighted / t.sumVolume]

def consolidateSpanFigures (legs : List WindowLeg) (spanMs : Nat) : List ℚ :=
  outputs (spanAdd r spanMs) (spanAddFigures r spanMs) .zero legs ++
    spanFigures r (exec (spanAdd r spanMs) .zero legs)

def consolidateWindowsFigures (legs : List WindowLeg) : List ℚ :=
  let spans := legs.flatMap (fun leg => leg.windows.map WindowReading.spanMs)
  ((spans.insertionSort (· ≤ ·)).destutter (· ≠ ·)).flatMap (consolidateSpanFigures r legs)

end Consolidated

section Turns

variable {σ : Type u} (v : VenueSync σ) (arith : DecimalArith)

/-- Only an audit of a live book computes with its prices. -/
def feedFigures (vb : VenueBook σ) (frame : RawFrame) : List ℚ :=
  match frame.source with
  | .restAudit => match frame.asStr.bind (v.parseRestSnapshot vb.sync) with
    | .ok _ => if vb.book.state.isLive then auditFigures r vb.book.levels vb.auditPolicy else []
    | .error _ => []
  | _ => []

def deliverFigures (vb : VenueBook σ) : IngestMessage → List ℚ
  | .frame frame => feedFigures r v vb frame
  | _ => []

def eventFigures (s : VenueState σ RollingWindows) (event : MarketEvent) : List ℚ :=
  match event.kind with
  | .trade price qty _ => observeTradeFigures r s.windows price.decimal qty.decimal event.ingestTs
  | _ => []

def sampleFigures (s : VenueState σ RollingWindows) (now : IngestTime) : List ℚ :=
  observeFigures r s.windows (s.book.book.topOfBook now) now

def settleFigures (s : VenueState σ RollingWindows) (outcomes : List Outcome) (now : IngestTime) :
    List ℚ :=
  let events := outcomeEvents outcomes
  outputs (VenueState.noteEvent (roundedOps r)) (eventFigures r) s events ++
    sampleFigures r (exec (VenueState.noteEvent (roundedOps r)) s events) now

def applyToStreamFigures (s : VenueState σ RollingWindows) (message : IngestMessage) : List ℚ :=
  let s := { s with counters := { s.counters with applied := s.counters.applied + 1 } }
  let delivered := deliver v arith s.book message
  let after := { s with book := delivered.2 }
  deliverFigures r v s.book message ++ match message with
    | .sessionEnded _ now _ => sampleFigures r after now
    | .frame frame => match delivered.1 with
      | .error _ => sampleFigures r after frame.ingestTs
      | .ok outcomes => settleFigures r after outcomes frame.ingestTs
    | .event _ event => match delivered.1 with
      | .error _ => []
      | .ok outcomes => settleFigures r after outcomes event.ingestTs

def applyFigures (agg : Aggregator σ RollingWindows) (message : IngestMessage) : List ℚ :=
  match agg.streams.find? message.stream with
  | none => []
  | some s => applyToStreamFigures r v arith s message

def venueViewFigures (now : IngestTime) (s : VenueState σ RollingWindows) : List ℚ :=
  topFigures r (s.book.book.topOfBook now) ++ readFigures r s.windows now

/-- The windows that a snapshot merges, by symbol. -/
def windowLegs (p : Publisher σ) (owned : Option (List StreamId)) (now : IngestTime) :
    OrderedMap Symbol (List WindowLeg) Symbol.cmp :=
  OrderedMap.grouped ((p.published owned).map (fun e =>
    (e.1.symbol, ⟨e.1.venue, 0, read r e.2.windows now⟩)))

/-- The counters and the rates of a stream are no decimals. -/
def snapshotFigures (p : Publisher σ) (owned : Option (List StreamId)) (now : IngestTime) :
    List ℚ :=
  (p.published owned).flatMap (fun e => venueViewFigures r now e.2) ++
    (windowLegs r p owned now).entries.flatMap (fun e =>
      consolidateFigures r (((p.tops owned now).find? e.1).getD []) p.crossPolicy ++
        consolidateWindowsFigures r e.2)

def turnFigures (p : Publisher σ) : Turn → List ℚ
  | .apply message => applyFigures r v arith p.agg message
  | .publish owned now => snapshotFigures r p owned now

end Turns

end DecimalFigures
