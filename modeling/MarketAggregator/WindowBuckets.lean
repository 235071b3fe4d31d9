import MarketAggregator.AggregatorApply
import Mathlib.Algebra.Order.Ring.Rat
import Mathlib.Data.Rat.Floor

/-!
# Rolling windows over one ring of buckets

Time since the origin is cut into buckets of one resolution, and a window is the last
whole buckets before the current one. Buckets share a ring that is as long as the
longest window and are cleared when another bucket of the same place is written. Time
is charged to buckets at the trust state in force while it elapsed. Prices and sums
are exact rationals.
-/

namespace WindowBuckets

open AggregatorApply Clocks Decimals MarketEvents OrderBook VenueBooks

def valueOf (d : Decimal) : ℚ :=
  (if d.negative then -(d.mantissa : ℚ) else d.mantissa) / 10 ^ d.scale

/-- Rounding to some places, halves to the even neighbour. -/
def roundDp (places : Nat) (q : ℚ) : ℚ :=
  let scaled := q * 10 ^ places
  let low := scaled.floor
  let rest := scaled - low
  let nearest := if rest < 1 / 2 then low
    else if 1 / 2 < rest then low + 1
    else if low % 2 = 0 then low else low + 1
  nearest / 10 ^ places

def midScale : Nat := 8

def bpsScale : Nat := 4

def bps (numerator denominator : ℚ) : ℚ := roundDp bpsScale (numerator * 10000 / denominator)

/-- Weakest first. -/
def integrityRank : Integrity → Nat
  | .orderOnly => 0
  | .gapDetectable => 1
  | .verified => 2

theorem integrityRank_injective : Function.Injective integrityRank := by
  intro a b h
  cases a <;> cases b <;> first | rfl | exact absurd h (by decide)

instance integrityOrder : LinearOrder Integrity :=
  LinearOrder.lift' integrityRank integrityRank_injective

def maxOpt {T : Type} [Max T] : Option T → Option T → Option T
  | some a, some b => some (max a b)
  | a, b => a.or b

def minOpt {T : Type} [Min T] : Option T → Option T → Option T
  | some a, some b => some (min a b)
  | a, b => a.or b

/-- The longest duration: 64 bits of seconds and the nanoseconds below one more. -/
def durationMax : Nat := u64Max * nanosPerSec + (nanosPerSec - 1)

/-- Buckets needed to cover a span, rounding up. -/
def bucketsFor (span resolution : Nat) : Nat :=
  let resolution := max resolution 1
  min ((span + (resolution - 1)) / resolution) u64Max

structure WindowSpec where
  resolution : Nat
  spans : List Nat
  clamped : nanosPerMilli ≤ resolution

namespace WindowSpec

/-- A resolution of at least a millisecond, and spans of at least one bucket. -/
def new (resolution : Nat) (spans : List Nat) : WindowSpec where
  resolution := max resolution nanosPerMilli
  spans := spans.map (fun s => max s (max resolution nanosPerMilli))
  clamped := Nat.le_max_right _ _

def longest (spec : WindowSpec) : Nat := spec.spans.max?.getD 0

end WindowSpec

structure WindowReading where
  spanMs : Nat
  trustedMs : Nat
  samples : Nat
  integrityFloor : Option Integrity
  first : Option ℚ
  last : Option ℚ
  high : Option ℚ
  low : Option ℚ
  mean : Option ℚ
  changeBps : Option ℚ
  rangeBps : Option ℚ
  meanSpreadBps : Option ℚ
  trades : Nat
  volume : Option ℚ
  vwap : Option ℚ
  deriving DecidableEq

def WindowReading.empty (spanMs : Nat) : WindowReading where
  spanMs := spanMs
  trustedMs := 0
  samples := 0
  integrityFloor := none
  first := none
  last := none
  high := none
  low := none
  mean := none
  changeBps := none
  rangeBps := none
  meanSpreadBps := none
  trades := 0
  volume := none
  vwap := none

/-- One resolution's worth of samples and prints, under its absolute number. -/
structure Bucket where
  index : Option Nat
  samples : Nat
  sumMid : ℚ
  sumSpread : ℚ
  first : Option ℚ
  last : Option ℚ
  high : Option ℚ
  low : Option ℚ
  integrity : Option Integrity
  trades : Nat
  sumQty : ℚ
  sumPriceQty : ℚ
  untrusted : Nat
  deriving DecidableEq

namespace Bucket

def blank (index : Option Nat) : Bucket where
  index := index
  samples := 0
  sumMid := 0
  sumSpread := 0
  first := none
  last := none
  high := none
  low := none
  integrity := none
  trades := 0
  sumQty := 0
  sumPriceQty := 0
  untrusted := 0

def record (b : Bucket) (mid spread : ℚ) (integrity : Integrity) : Bucket :=
  { b with
    samples := b.samples + 1
    sumMid := b.sumMid + mid
    sumSpread := b.sumSpread + spread
    first := b.first.or (some mid)
    last := some mid
    high := maxOpt b.high (some mid)
    low := minOpt b.low (some mid)
    integrity := minOpt b.integrity (some integrity) }

def recordTrade (b : Bucket) (price qty : ℚ) : Bucket :=
  { b with
    trades := b.trades + 1
    sumQty := b.sumQty + qty
    sumPriceQty := b.sumPriceQty + price * qty }

def charged (b : Bucket) (elapsed : Nat) : Bucket := { b with untrusted := b.untrusted + elapsed }

end Bucket

/-- `chargedTo` is the time up to which trust has been accounted. -/
structure RollingWindows where
  spec : WindowSpec
  buckets : List Bucket
  origin : IngestTime
  chargedTo : IngestTime
  trusted : Bool

namespace RollingWindows

def new (spec : WindowSpec) (now : IngestTime) : RollingWindows where
  spec := spec
  buckets := List.replicate (min (bucketsFor spec.longest spec.resolution + 1) u64Max)
    (Bucket.blank none)
  origin := now
  chargedTo := now
  trusted := false

def ring (s : RollingWindows) : Nat := s.buckets.length

/-- The bucket of a monotonic reading. What is before the origin counts as the origin. -/
def indexOf (s : RollingWindows) (mono : Nat) : Nat :=
  min ((mono - s.origin.mono) / max s.spec.resolution 1) u64Max

def indexAt (s : RollingWindows) (t : IngestTime) : Nat := s.indexOf t.mono

/-- The monotonic reading at which a bucket starts, within 64 bits of the origin. -/
def bucketStart (s : RollingWindows) (index : Nat) : Nat :=
  s.origin.mono + min (index * s.spec.resolution) u64Max

def saturatingSucc (index : Nat) : Nat := min (index + 1) u64Max

def place (s : RollingWindows) (index : Nat) : Nat := index % max s.ring 1

def slot (s : RollingWindows) (index : Nat) : Option Bucket :=
  (s.buckets[s.place index]?).filter (fun bucket => bucket.index = some index)

/-- Write to the bucket of a number, cleared first when its place holds another one. -/
def slotMut (s : RollingWindows) (index : Nat) (write : Bucket → Bucket) : RollingWindows :=
  let held := s.buckets.getD (s.place index) (Bucket.blank none)
  let bucket := if held.index = some index then held else Bucket.blank (some index)
  { s with buckets := s.buckets.set (s.place index) (write bucket) }

/-- Charge from a cursor on, bucket by bucket. Every turn moves the cursor or stops. -/
def chargeFrom (now : Nat) : Nat → Nat → RollingWindows → RollingWindows
  | 0, _, s => s
  | fuel + 1, cursor, s =>
    if cursor < now then
      let index := s.indexOf cursor
      let boundary := s.bucketStart (saturatingSucc index)
      let sliceEnd := if boundary < now then boundary else now
      let elapsed := sliceEnd - cursor
      let s := s.slotMut index (fun b => if s.trusted then b else b.charged elapsed)
      if sliceEnd ≤ cursor then s else chargeFrom now fuel sliceEnd s
    else s

/-- Attribute the elapsed time to buckets, skipping what no window can reach any more. -/
def charge (s : RollingWindows) (now : IngestTime) : RollingWindows :=
  if now.mono ≤ s.chargedTo.mono then s
  else
    let last := s.indexAt now
    let cursor :=
      if s.ring ≤ last - s.indexAt s.chargedTo then s.bucketStart (saturatingSucc (last - s.ring))
      else s.chargedTo.mono
    { chargeFrom now.mono (now.mono - cursor) cursor s with chargedTo := now }

/-- Fold one book observation in. -/
def observe (s : RollingWindows) (top : TopOfBook) (now : IngestTime) : RollingWindows :=
  let s := s.charge now
  match top.state with
  | .live integrity _ _ =>
    let s := { s with trusted := true }
    match top.bid, top.ask with
    | some bid, some ask =>
      let bid := valueOf bid.price.decimal
      let ask := valueOf ask.price.decimal
      s.slotMut (s.indexAt now) (fun b => b.record ((bid + ask) / 2) (ask - bid) integrity)
    | _, _ => s
  | _ => { s with trusted := false }

/-- Fold one print in, whatever the book's state. -/
def observeTrade (s : RollingWindows) (price qty : Decimal) (now : IngestTime) : RollingWindows :=
  let s := s.charge now
  s.slotMut (s.indexAt now) (fun b => b.recordTrade (valueOf price) (valueOf qty))

/-- What a reading sums up over the buckets of its window. -/
structure Totals where
  trustedMs : Nat
  samples : Nat
  integrityFloor : Option Integrity
  first : Option ℚ
  last : Option ℚ
  high : Option ℚ
  low : Option ℚ
  trades : Nat
  sumMid : ℚ
  sumSpread : ℚ
  sumQty : ℚ
  sumPriceQty : ℚ

def Totals.zero : Totals := ⟨0, 0, none, none, none, none, none, 0, 0, 0, 0, 0⟩

/-- Trades are counted before the samples are looked at: an untrusted book still trades. -/
def Totals.add (resolution : Nat) (t : Totals) (bucket : Bucket) : Totals :=
  let t :=
    { t with
      trustedMs := t.trustedMs + millis (resolution - bucket.untrusted)
      trades := t.trades + bucket.trades
      sumQty := t.sumQty + bucket.sumQty
      sumPriceQty := t.sumPriceQty + bucket.sumPriceQty }
  if bucket.samples = 0 then t
  else
    { t with
      samples := t.samples + bucket.samples
      sumMid := t.sumMid + bucket.sumMid
      sumSpread := t.sumSpread + bucket.sumSpread
      first := t.first.or bucket.first
      last := bucket.last.or t.last
      high := maxOpt t.high bucket.high
      low := minOpt t.low bucket.low
      integrityFloor := minOpt t.integrityFloor bucket.integrity }

/-- The figures of a window: those of the prints, and those of the book if it was sampled. -/
def Totals.reading (t : Totals) (spanMs : Nat) : WindowReading :=
  let out :=
    { WindowReading.empty spanMs with
      trustedMs := t.trustedMs
      samples := t.samples
      integrityFloor := t.integrityFloor
      first := t.first
      last := t.last
      high := t.high
      low := t.low
      trades := t.trades
      volume := if 0 < t.trades then some t.sumQty else none
      vwap := if 0 < t.trades then
          if t.sumQty = 0 then none else some (roundDp midScale (t.sumPriceQty / t.sumQty))
        else none }
  if t.samples = 0 then out
  else
    let mean := roundDp midScale (t.sumMid / t.samples)
    { out with
      mean := some mean
      changeBps := match t.first, t.last with
        | some first, some last => if first = 0 then none else some (bps (last - first) first)
        | _, _ => none
      rangeBps := match t.high, t.low with
        | some high, some low => if mean = 0 then none else some (bps (high - low) mean)
        | _, _ => none
      meanSpreadBps := if t.sumMid = 0 then none else some (bps t.sumSpread t.sumMid) }

/-- One window: the completed buckets before the one in progress. -/
def readSpan (s : RollingWindows) (span current : Nat) : WindowReading :=
  let k := bucketsFor span s.spec.resolution
  let spanMs := millis (min (s.spec.resolution * min k (2 ^ 32 - 1)) durationMax)
  match current with
  | 0 => .empty spanMs
  | newest + 1 =>
    let oldest := newest - (k - 1)
    let totals := (List.range' oldest (newest + 1 - oldest)).foldl
      (fun t index => (s.slot index).elim t (t.add s.spec.resolution)) Totals.zero
    totals.reading spanMs

/-- Every configured window. Reading charges the time up to now. -/
def read (s : RollingWindows) (now : IngestTime) : List WindowReading × RollingWindows :=
  let s := s.charge now
  (s.spec.spans.map (fun span => s.readSpan span (s.indexAt now)), s)

end RollingWindows

/-- The windows that the aggregator keeps beside a book. -/
def windowOps : WindowOps RollingWindows := ⟨RollingWindows.observe, RollingWindows.observeTrade⟩

section Slots

variable {s : RollingWindows} {i j : Nat} {write : Bucket → Bucket}

/-- Writing never renumbers a bucket. -/
def KeepsIndex (write : Bucket → Bucket) : Prop := ∀ b, (write b).index = b.index

theorem charged_keepsIndex {trusted : Bool} {elapsed : Nat} :
    KeepsIndex (fun b => if trusted then b else b.charged elapsed) := by
  intro b
  cases trusted <;> rfl

@[simp] theorem slotMut_spec : (s.slotMut i write).spec = s.spec := rfl

@[simp] theorem slotMut_origin : (s.slotMut i write).origin = s.origin := rfl

@[simp] theorem slotMut_trusted : (s.slotMut i write).trusted = s.trusted := rfl

@[simp] theorem slotMut_ring : (s.slotMut i write).ring = s.ring := List.length_set

@[simp] theorem slotMut_place : (s.slotMut i write).place j = s.place j := by
  rw [RollingWindows.place, slotMut_ring, RollingWindows.place]

theorem place_lt (some_place : 0 < s.ring) : s.place i < s.buckets.length := by
  rw [RollingWindows.place, Nat.max_eq_left some_place]
  exact Nat.mod_lt i some_place

/-- Numbers closer than the ring is long have places of their own. -/
theorem place_injective (some_place : 0 < s.ring) (same : s.place i = s.place j)
    (below : i < j + s.ring) (above : j < i + s.ring) : i = j := by
  rw [RollingWindows.place, RollingWindows.place, Nat.max_eq_left some_place] at same
  have hi := Nat.div_add_mod i s.ring
  have hj := Nat.div_add_mod j s.ring
  rcases Nat.lt_trichotomy (i / s.ring) (j / s.ring) with less | equal | more
  · have gap : s.ring * (i / s.ring) + s.ring ≤ s.ring * (j / s.ring) := by
      rw [← Nat.mul_succ]
      exact Nat.mul_le_mul_left _ less
    omega
  · rw [equal] at hi
    omega
  · have gap : s.ring * (j / s.ring) + s.ring ≤ s.ring * (i / s.ring) := by
      rw [← Nat.mul_succ]
      exact Nat.mul_le_mul_left _ more
    omega

/-- What a write leaves in its own bucket. -/
theorem slot_slotMut (some_place : 0 < s.ring) (keeps : KeepsIndex write) :
    (s.slotMut i write).slot i =
      some (write ((s.slot i).getD (Bucket.blank (some i)))) := by
  have inside := place_lt (i := i) some_place
  have held : s.buckets[s.place i]? = some s.buckets[s.place i] := List.getElem?_eq_getElem inside
  rw [RollingWindows.slot, slotMut_place]
  simp only [RollingWindows.slotMut, List.getElem?_set_self inside]
  rw [RollingWindows.slot, held, List.getD_eq_getElem?_getD, held]
  by_cases own : s.buckets[s.place i].index = some i
  · have kept : (write s.buckets[s.place i]).index = some i := (keeps _).trans own
    simp [Option.filter, own, kept]
  · have kept : (write (Bucket.blank (some i))).index = some i := keeps _
    simp [Option.filter, own, kept]

/-- A write elsewhere leaves a bucket alone. -/
theorem slot_slotMut_other (apart : s.place j ≠ s.place i) :
    (s.slotMut i write).slot j = s.slot j := by
  rw [RollingWindows.slot, slotMut_place, RollingWindows.slot]
  simp only [RollingWindows.slotMut, List.getElem?_set_ne (Ne.symm apart)]

/-- A write to another number of the same place evicts the bucket. -/
theorem slot_slotMut_evicted (some_place : 0 < s.ring) (keeps : KeepsIndex write)
    (same : s.place j = s.place i) (other : j ≠ i) : (s.slotMut i write).slot j = none := by
  have own := slot_slotMut (i := i) some_place keeps
  rw [RollingWindows.slot, slotMut_place] at own ⊢
  rw [same]
  obtain ⟨held, number⟩ := Option.filter_eq_some_iff.mp own
  rw [held]
  simp only [decide_eq_true_eq] at number
  simp [Option.filter, number, Ne.symm other]

end Slots

end WindowBuckets
