import MarketAggregator.WindowBuckets
import Mathlib.Data.List.Destutter
import Mathlib.Data.List.Sort

/-!
# The consolidated touch and the consolidated windows

The highest bid and the lowest ask over the trusted and fresh books of one symbol, and
the windows of its venues merged into one per span. A venue that does not contribute is
listed with the reason.
-/

namespace CrossTouch

open Clocks Decimals MarketEvents OrderBook VenueStreams WindowBuckets

/-- A book that has not been updated for longer takes no part. -/
structure CrossPolicy where
  maxAge : Nat
  deriving DecidableEq, Repr

structure CrossLeg where
  venue : VenueId
  price : Price
  qty : Qty
  ageMs : Nat
  integrity : Integrity
  deriving DecidableEq

inductive ExclusionReason where
  | untrusted
  | stale (age : Nat)
  | noQuote
  deriving DecidableEq, Repr

def ExclusionReason.message : ExclusionReason → String
  | .untrusted => "book is not trusted"
  | .stale age => "no update for " ++ toString (age / nanosPerMilli) ++ "ms"
  | .noQuote => "book holds no levels"

structure Exclusion where
  venue : VenueId
  reason : ExclusionReason
  deriving DecidableEq, Repr

/-- Decimal arithmetic with rounding to some places. -/
structure TouchArith extends DecimalArith where
  roundDp : Decimal → Nat → Decimal

structure CrossVenue where
  bid : Option CrossLeg
  ask : Option CrossLeg
  spread : Option Decimal
  spreadBps : Option Decimal
  mid : Option Decimal
  integrityFloor : Option Integrity
  oldestLegMs : Option Nat
  venuesUsed : Nat
  excluded : List Exclusion
  deriving DecidableEq

namespace CrossVenue

/-- The highest bid is at or above the lowest ask. -/
def isCrossed (c : CrossVenue) : Bool := c.spread.any (fun s => s.units ≤ 0)

def isSingleVenue (c : CrossVenue) : Bool :=
  match c.bid, c.ask with
  | some bid, some ask => bid.venue = ask.venue
  | _, _ => false

end CrossVenue

/-- The best legs so far, and who is left out of them. -/
structure Touch where
  bid : Option CrossLeg
  ask : Option CrossLeg
  excluded : List Exclusion
  used : Nat

namespace Touch

def empty : Touch := ⟨none, none, [], 0⟩

def exclude (t : Touch) (venue : VenueId) (reason : ExclusionReason) : Touch :=
  { t with excluded := t.excluded ++ [⟨venue, reason⟩] }

/-- Ties keep the venue seen first. -/
def betterBid (best : Option CrossLeg) (leg : CrossLeg) : Option CrossLeg :=
  match best with
  | none => some leg
  | some b => if Price.cmp leg.price b.price = .gt then some leg else some b

def betterAsk (best : Option CrossLeg) (leg : CrossLeg) : Option CrossLeg :=
  match best with
  | none => some leg
  | some a => if Price.cmp leg.price a.price = .lt then some leg else some a

/-- A fresh quote of a trusted book. -/
def use (t : Touch) (venue : VenueId) (top : TopOfBook) (integrity : Integrity) (age : Nat) :
    Touch :=
  let leg := fun (level : Level) =>
    (⟨venue, level.price, level.qty, millis age, integrity⟩ : CrossLeg)
  { t with
    used := t.used + 1
    bid := match top.bid with
      | none => t.bid
      | some level => betterBid t.bid (leg level)
    ask := match top.ask with
      | none => t.ask
      | some level => betterAsk t.ask (leg level) }

/-- Trust first, then age, then whether there is a quote at all. -/
def quote (policy : CrossPolicy) (t : Touch) (q : VenueId × TopOfBook) : Touch :=
  match q.2.state with
  | .live integrity _ _ =>
    -- Nothing applied yet cannot be fresh.
    let age := q.2.age.getD durationMax
    if policy.maxAge < age then t.exclude q.1 (.stale age)
    else if q.2.bid.isNone ∧ q.2.ask.isNone then t.exclude q.1 .noQuote
    else t.use q.1 q.2 integrity age
  | _ => t.exclude q.1 .untrusted

end Touch

section Consolidate

variable (arith : TouchArith)

/-- Two and ten thousand, as decimals. -/
def two : Decimal := Decimal.whole 2

def tenThousand : Decimal := Decimal.whole 10000

def consolidate (quotes : List (VenueId × TopOfBook)) (policy : CrossPolicy) : CrossVenue :=
  let t := quotes.foldl (Touch.quote policy) Touch.empty
  match t.bid, t.ask with
  | some bid, some ask =>
    let spread := arith.sub ask.price.decimal bid.price.decimal
    let mid := arith.div (arith.add ask.price.decimal bid.price.decimal) two
    { bid := some bid
      ask := some ask
      spread := some spread
      spreadBps := if mid.isZero then none
        else some (arith.roundDp (arith.div (arith.mul spread tenThousand) mid) bpsScale)
      mid := some mid
      integrityFloor := some (min bid.integrity ask.integrity)
      oldestLegMs := some (max bid.ageMs ask.ageMs)
      venuesUsed := t.used
      excluded := t.excluded }
  | bid, ask =>
    { bid := bid
      ask := ask
      spread := none
      spreadBps := none
      mid := none
      integrityFloor := (bid.map CrossLeg.integrity).or (ask.map CrossLeg.integrity)
      oldestLegMs := (bid.map CrossLeg.ageMs).or (ask.map CrossLeg.ageMs)
      venuesUsed := t.used
      excluded := t.excluded }

structure ExclusionView where
  venue : VenueId
  reason : String
  deriving DecidableEq, Repr

/-- The touch rendered for the wire, with the clock its ages were measured on. -/
structure CrossView where
  bid : Option CrossLeg
  ask : Option CrossLeg
  spread : Option String
  spreadBps : Option String
  mid : Option String
  integrityFloor : Option Integrity
  oldestLegMs : Option Nat
  venuesUsed : Nat
  crossed : Bool
  singleVenue : Bool
  excluded : List ExclusionView
  clock : String
  deriving DecidableEq

def crossView (tops : List (VenueId × TopOfBook)) (policy : CrossPolicy) (clock : String) :
    CrossView :=
  let cross := consolidate arith tops policy
  { bid := cross.bid
    ask := cross.ask
    spread := cross.spread.map Decimal.toString
    spreadBps := cross.spreadBps.map Decimal.toString
    mid := cross.mid.map Decimal.toString
    integrityFloor := cross.integrityFloor
    oldestLegMs := cross.oldestLegMs
    venuesUsed := cross.venuesUsed
    crossed := cross.isCrossed
    singleVenue := cross.isSingleVenue
    excluded := cross.excluded.map (fun e => ⟨e.venue, e.reason.message⟩)
    clock := clock }

end Consolidate

/-- One venue's windows as delivered, and how late the delivery was. -/
structure WindowLeg where
  venue : VenueId
  lagMs : Nat
  windows : List WindowReading

inductive WindowExclusionReason where
  | spanNotPublished
  | noData
  deriving DecidableEq, Repr

structure WindowExclusion where
  venue : VenueId
  reason : WindowExclusionReason
  deriving DecidableEq, Repr

/-- First and last are absent: samples of two machines have no order. -/
structure CrossWindowReading where
  spanMs : Nat
  trustedMsFloor : Nat
  integrityFloor : Option Integrity
  maxLagMs : Nat
  venuesUsed : Nat
  samples : Nat
  high : Option ℚ
  low : Option ℚ
  mean : Option ℚ
  rangeBps : Option ℚ
  trades : Nat
  volume : Option ℚ
  vwap : Option ℚ
  excluded : List WindowExclusion
  deriving DecidableEq

/-- The sums of the legs so far. -/
structure SpanTotals where
  floor : Option Nat
  integrityFloor : Option Integrity
  maxLagMs : Nat
  venuesUsed : Nat
  samples : Nat
  high : Option ℚ
  low : Option ℚ
  sumMeanWeighted : ℚ
  trades : Nat
  sumVolume : ℚ
  sumVwapWeighted : ℚ
  excluded : List WindowExclusion

namespace SpanTotals

def zero : SpanTotals := ⟨none, none, 0, 0, 0, none, none, 0, 0, 0, 0, []⟩

def exclude (t : SpanTotals) (venue : VenueId) (reason : WindowExclusionReason) : SpanTotals :=
  { t with excluded := t.excluded ++ [⟨venue, reason⟩] }

/-- Book figures come only from the legs that sampled a book. -/
def addSamples (t : SpanTotals) (w : WindowReading) : SpanTotals :=
  if w.samples = 0 then t
  else
    { t with
      integrityFloor := minOpt t.integrityFloor w.integrityFloor
      high := maxOpt t.high w.high
      low := minOpt t.low w.low
      sumMeanWeighted := t.sumMeanWeighted +
        (w.mean.map (fun mean => mean * (w.samples : ℚ))).getD 0 }

def addPrints (t : SpanTotals) (w : WindowReading) : SpanTotals :=
  match w.volume, w.vwap with
  | some volume, some vwap =>
    { t with
      sumVolume := t.sumVolume + volume
      sumVwapWeighted := t.sumVwapWeighted + vwap * volume }
  | _, _ => t

def add (spanMs : Nat) (t : SpanTotals) (leg : WindowLeg) : SpanTotals :=
  match leg.windows.find? (fun w => w.spanMs = spanMs) with
  | none => t.exclude leg.venue .spanNotPublished
  | some w =>
    if w.samples = 0 ∧ w.trades = 0 then t.exclude leg.venue .noData
    else
      let t := { t with
        venuesUsed := t.venuesUsed + 1
        floor := some ((t.floor.map (min · w.trustedMs)).getD w.trustedMs)
        maxLagMs := max t.maxLagMs leg.lagMs
        samples := t.samples + w.samples }
      let t := t.addSamples w
      { t with trades := t.trades + w.trades }.addPrints w

end SpanTotals

def consolidateSpan (legs : List WindowLeg) (spanMs : Nat) : CrossWindowReading :=
  let t := legs.foldl (SpanTotals.add spanMs) SpanTotals.zero
  let mean := if t.samples = 0 then none
    else some (roundDp midScale (t.sumMeanWeighted / t.samples))
  { spanMs := spanMs
    trustedMsFloor := t.floor.getD 0
    integrityFloor := t.integrityFloor
    maxLagMs := t.maxLagMs
    venuesUsed := t.venuesUsed
    samples := t.samples
    high := t.high
    low := t.low
    mean := mean
    rangeBps := match t.high, t.low, mean with
      | some high, some low, some mean => if mean = 0 then none else some (bps (high - low) mean)
      | _, _, _ => none
    trades := t.trades
    volume := if t.trades = 0 then none else some t.sumVolume
    vwap := if t.trades = 0 ∨ t.sumVolume = 0 then none
      else some (roundDp midScale (t.sumVwapWeighted / t.sumVolume))
    excluded := t.excluded }

/-- Every span that a leg publishes, ascending. -/
def consolidateWindows (legs : List WindowLeg) : List CrossWindowReading :=
  let spans := legs.flatMap (fun leg => leg.windows.map WindowReading.spanMs)
  ((spans.insertionSort (· ≤ ·)).destutter (· ≠ ·)).map (consolidateSpan legs)

end CrossTouch
