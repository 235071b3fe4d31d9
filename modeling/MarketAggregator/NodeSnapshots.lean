import MarketAggregator.BookInvariants
import MarketAggregator.DesyncAccounts
import MarketAggregator.GatewayMerge

/-!
# What a node publishes

A snapshot renders every owned stream as one view, grouped by symbol, and consolidates the
touch and the windows of each symbol from the books themselves. Taking one charges the
windows of the published streams up to the instant of the snapshot. The counters and the
rates of a stream are read off shared figures and enter as parameters.
-/

namespace NodeSnapshots

open AggregatorApply BookInvariants Clocks CrossTouch Decimals GatewayMerge GuardedRuns
  MarketEvents OrderBook OrderedMaps VenueBooks VenueStreams WindowBuckets

universe u

def ingestMonotonic : String := "ingest_monotonic"

/-- Why a book is distrusted, in words. -/
def describe : DesyncReason → String
  | .sequenceGap expected got =>
    "sequence gap: expected " ++ toString expected.toNat ++ ", got " ++ toString got.toNat
  | .checksumMismatch expected computed =>
    "checksum mismatch: venue said " ++ toString expected.toNat ++ ", we computed " ++
      toString computed.toNat
  | .timestampRegression lastMicros gotMicros =>
    "timestamps went backwards: after " ++ toString lastMicros ++ ", got " ++ toString gotMicros
  | .crossedBook bestBid bestAsk =>
    "crossed book: bid " ++ bestBid.decimal.toString ++ " >= ask " ++ bestAsk.decimal.toString
  | .auditMismatch price consecutive =>
    "depth audit disagreed at " ++ price.decimal.toString ++ ", " ++ toString consecutive ++
      " audits running"
  | .connectionLost => "connection lost"
  | .awaitingSnapshot => "awaiting a REST depth snapshot"
  | .snapshotGap => "buffered deltas did not join onto the snapshot"

def statusOf : BookState → BookStatus
  | .uninitialized => .uninitialized
  | .live .. => .live
  | .desynced .. => .desynced

def integrityOf : BookState → Option Integrity
  | .live integrity _ _ => some integrity
  | _ => none

def lastVerifiedOf : BookState → Option IngestTime
  | .live _ _ lastVerified => lastVerified
  | _ => none

def desyncReasonOf : BookState → Option DesyncReason
  | .desynced _ reason => some reason
  | _ => none

def spread (arith : TouchArith) (top : TopOfBook) : Option Decimal :=
  match top.bid, top.ask with
  | some bid, some ask => some (arith.sub ask.price.decimal bid.price.decimal)
  | _, _ => none

def mid (arith : TouchArith) (top : TopOfBook) : Option Decimal :=
  match top.bid, top.ask with
  | some bid, some ask => some (arith.div (arith.add ask.price.decimal bid.price.decimal) two)
  | _, _ => none

/-- The aggregator and how it publishes. -/
structure Publisher (σ : Type u) where
  agg : Aggregator σ RollingWindows
  seq : Nat
  depthLevels : Nat
  crossPolicy : CrossPolicy

/-- Without a set of owned streams every stream is published. -/
def publishes (owned : Option (List StreamId)) (x : StreamId) : Bool :=
  owned.all (fun streams => decide (x ∈ streams))

section Snapshots

variable {σ : Type u} {κ ρ : Type} (arith : TouchArith)

def venueView (depthLevels : Nat) (now : IngestTime) (readings : StreamId → κ × ρ)
    (entry : StreamId × VenueState σ RollingWindows) : VenueView κ ρ :=
  let state := entry.2
  let book := state.book.book
  let top := book.topOfBook now
  { venue := entry.1.venue
    status := statusOf book.state
    integrity := integrityOf top.state
    desyncReason := (desyncReasonOf top.state).map describe
    bid := top.bid
    ask := top.ask
    bids := book.levels.topLevels .bid depthLevels
    asks := book.levels.topLevels .ask depthLevels
    spread := (spread arith top).map Decimal.toString
    mid := (mid arith top).map Decimal.toString
    ageMs := top.age.map millis
    statusForMs := millis (now.since state.statusSince)
    desyncedTotalMs := millis (DesyncAccounts.desyncedTotal state now)
    lastVerifiedMs := (lastVerifiedOf top.state).map (fun verified => millis (now.since verified))
    audits := state.book.auditTrail.audits
    auditMismatches := state.book.auditTrail.mismatches
    levelsHeld := (book.levels.bids.size, book.levels.asks.size)
    windows := (state.windows.read now).1
    lastTrade := state.lastTrade.map (fun trade =>
      ⟨trade.1.decimal.toString, trade.2.1.decimal.toString, trade.2.2.1,
        millis (now.since trade.2.2.2)⟩)
    counters := (readings entry.1).1
    rates := (readings entry.1).2 }

def symbolView (policy : CrossPolicy)
    (tops : OrderedMap Symbol (List (VenueId × TopOfBook)) Symbol.cmp)
    (entry : Symbol × List (VenueView κ ρ)) : SymbolView κ ρ where
  symbol := entry.1.text
  weakestIntegrity := (entry.2.filterMap VenueView.integrity).min?
  cross := crossView arith ((tops.find? entry.1).getD []) policy ingestMonotonic
  crossWindows := consolidatedWindows (entry.2.map (fun view => (view, 0)))
  venues := entry.2

namespace Publisher

/-- The published streams, by venue and then by symbol. -/
def published (p : Publisher σ) (owned : Option (List StreamId)) :
    List (StreamId × VenueState σ RollingWindows) :=
  p.agg.streams.entries.filter (fun e => publishes owned e.1)

def bySymbol (p : Publisher σ) (owned : Option (List StreamId)) (now : IngestTime)
    (readings : StreamId → κ × ρ) : OrderedMap Symbol (List (VenueView κ ρ)) Symbol.cmp :=
  OrderedMap.grouped ((p.published owned).map (fun e =>
    (e.1.symbol, venueView arith p.depthLevels now readings e)))

def tops (p : Publisher σ) (owned : Option (List StreamId)) (now : IngestTime) :
    OrderedMap Symbol (List (VenueId × TopOfBook)) Symbol.cmp :=
  OrderedMap.grouped ((p.published owned).map (fun e =>
    (e.1.symbol, e.1.venue, e.2.book.book.topOfBook now)))

/-- After a snapshot: a number used up, and the windows charged. -/
def advance (p : Publisher σ) (owned : Option (List StreamId)) (now : IngestTime) :
    Publisher σ :=
  { p with
    seq := p.seq + 1
    agg := { p.agg with
      streams := p.agg.streams.mapValues (fun x s =>
        if publishes owned x then { s with windows := (s.windows.read now).2 } else s) } }

def snapshot (p : Publisher σ) (owned : Option (List StreamId)) (now : IngestTime)
    (readings : StreamId → κ × ρ) (channel : ChannelMetrics) : Snapshot κ ρ × Publisher σ :=
  ({ seq := p.seq + 1
     wallUnixMs := unixMillis now.wall
     clock := ingestMonotonic
     symbols := (p.bySymbol arith owned now readings).entries.map
       (symbolView arith p.crossPolicy (p.tops owned now))
     channel := channel },
    p.advance owned now)

end Publisher

end Snapshots

/-- A message to apply, or a tick that publishes the streams owned at that instant. -/
inductive Turn where
  | apply (message : IngestMessage)
  | publish (owned : Option (List StreamId)) (now : IngestTime)

section Runs

variable {σ : Type u} (v : VenueSync σ) (arith : DecimalArith)

def step (p : Publisher σ) : Turn → Publisher σ
  | .apply message => { p with agg := (apply v arith windowOps p.agg message).1 }
  | .publish owned now => p.advance owned now

def start (specs : List (VenueSpec σ)) (windows : WindowSpec) (begin : IngestTime) (sink : Bool)
    (depthLevels : Nat) (crossPolicy : CrossPolicy) : Publisher σ where
  agg := Aggregator.new v specs (RollingWindows.new windows begin) begin sink
  seq := 0
  depthLevels := depthLevels
  crossPolicy := crossPolicy

/-- Every book of the aggregator is sound. -/
def AllSound (p : Publisher σ) : Prop :=
  ∀ x s, p.agg.streams.find? x = some s → Sound s.book.book

variable {v arith} {vb : VenueBook σ} {p : Publisher σ}

theorem sound_verify {hash : Levels → Option UInt32} {book : Book} {expected : UInt32}
    {now : IngestTime} (sound : Sound book) : Sound (verify hash book expected now) := by
  rw [verify]
  split
  · split
    · exact sound
    · split
      · exact sound_markVerified sound now
      · exact sound_markDesynced sound _ now
  · exact sound

/-- Every action is one of the operations of a book, or none. -/
theorem sound_applyAction {hash : Levels → Option UInt32} {integrity : Integrity}
    {now : IngestTime} {book : Book} (sound : Sound book) (action : SyncAction) :
    Sound (applyAction hash integrity now book action).1 := by
  cases action with
  | ignore => exact sound
  | forward kind => exact sound
  | desync reason => exact sound_markDesynced sound reason now
  | verify checksum => exact sound_verify sound
  | snapshot bids asks => exact sound_applySnapshot book bids asks integrity now
  | delta bids asks =>
    rw [applyAction_delta]
    exact sound_applyDelta sound bids asks now

theorem sound_applyActions {hash : Levels → Option UInt32} {integrity : Integrity}
    {now : IngestTime} {book : Book} (sound : Sound book) (actions : List SyncAction) :
    Sound (applyActions hash integrity now book actions).1 := by
  induction actions generalizing book with
  | nil => exact sound
  | cons action actions ih =>
    rw [applyActions_cons]
    exact ih (sound_applyAction sound action)

theorem sound_feed (sound : Sound vb.book) (frame : RawFrame) :
    Sound (vb.feed v arith frame).2.book := by
  rcases VenueBook.feed_cases v arith vb frame with
    ⟨_, _, _, fed⟩ | ⟨_, _, _, _, fed⟩ | ⟨_, fed⟩ | ⟨_, _, fed⟩ | ⟨snapshot, _, fed⟩
  · rw [fed]
    exact sound
  · rw [fed]
    exact sound_applyActions sound _
  · rw [fed]
    exact sound
  · rw [fed]
    exact sound_applyActions sound _
  · rw [fed]
    rcases (VenueBook.audit_book arith vb snapshot frame.ingestTs).2 with kept | ⟨reason, _, marked⟩
    · rw [kept]
      exact sound
    · rw [marked]
      exact sound_markDesynced sound reason frame.ingestTs

theorem sound_deliver (sound : Sound vb.book) (message : IngestMessage) :
    Sound (deliver v arith vb message).2.book := by
  cases message with
  | frame frame => exact sound_feed sound frame
  | event stream event => exact sound_applyActions sound _
  | sessionEnded stream now ending => exact sound_markDesynced sound _ now

theorem allSound_step (turn : Turn) (sound : AllSound p) : AllSound (step v arith p turn) := by
  intro x t found
  cases turn with
  | apply message =>
    rcases find?_apply found with ⟨-, was⟩ | ⟨-, s, was, book⟩
    · exact sound x t was
    · rw [book]
      exact sound_deliver (sound x s was) message
  | publish owned now =>
    rw [step, Publisher.advance, OrderedMap.find?_mapValues] at found
    obtain ⟨s, was, rfl⟩ := Option.map_eq_some_iff.mp found
    have kept := sound x s was
    split
    · exact kept
    · exact kept

theorem allSound_start (specs : List (VenueSpec σ)) (windows : WindowSpec) (begin : IngestTime)
    (sink : Bool) (depthLevels : Nat) (crossPolicy : CrossPolicy) :
    AllSound (start v specs windows begin sink depthLevels crossPolicy) := by
  intro x s found
  obtain ⟨spec, -, -, rfl⟩ := find?_new found
  have fresh := sound_start (v.venue spec.sync) spec.symbol spec.maxDepth
  cases depth : spec.maxDepth with
  | none =>
    rw [depth] at fresh
    exact fresh
  | some most =>
    rw [depth] at fresh
    exact fresh

/-- Every book that messages and ticks reach is sound. -/
theorem allSound_run (specs : List (VenueSpec σ)) (windows : WindowSpec) (begin : IngestTime)
    (sink : Bool) (depthLevels : Nat) (crossPolicy : CrossPolicy) (turns : List Turn) :
    AllSound (exec (step v arith)
      (start v specs windows begin sink depthLevels crossPolicy) turns) :=
  exec_keeps (fun _ turn sound => allSound_step turn sound)
    (allSound_start specs windows begin sink depthLevels crossPolicy) turns

end Runs

end NodeSnapshots
