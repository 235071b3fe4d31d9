import MarketAggregator.MarketEvents
import MarketAggregator.OrderedMaps

/-!
# One venue's book for one symbol

Each side maps prices to quantities in increasing price order. A book is live with
the strength of its venue's claim attached, or desynced with a reason, and only
live books take deltas. A snapshot replaces the levels and ends every resync; a
crossed result desyncs the book from inside the update.
-/

namespace OrderBook

open Clocks Decimals MarketEvents OrderedMaps VenueStreams

inductive Integrity where
  | orderOnly
  | gapDetectable
  | verified
  deriving DecidableEq, Repr

inductive DesyncReason where
  | sequenceGap (expected got : UInt64)
  | checksumMismatch (expected computed : UInt32)
  | timestampRegression (lastMicros gotMicros : Nat)
  | crossedBook (bestBid bestAsk : Price)
  | connectionLost
  | awaitingSnapshot
  | auditMismatch (price : Price) (consecutive : Nat)
  | snapshotGap
  deriving DecidableEq

/-- Whether nobody is already fixing this: repair takes a new stream from the venue. -/
def DesyncReason.needsFreshStream : DesyncReason → Bool
  | .awaitingSnapshot => false
  | .connectionLost => false
  | _ => true

/-- Equality of reasons, with prices compared by value. -/
def DesyncReason.sameAs : DesyncReason → DesyncReason → Bool
  | .crossedBook b a, .crossedBook b' a' => Price.cmp b b' = .eq ∧ Price.cmp a a' = .eq
  | .auditMismatch p n, .auditMismatch p' n' => Price.cmp p p' = .eq ∧ n = n'
  | r, r' => r = r'

inductive BookState where
  | uninitialized
  | live (integrity : Integrity) (since : IngestTime) (lastVerified : Option IngestTime)
  | desynced (since : IngestTime) (reason : DesyncReason)
  deriving DecidableEq

inductive BookStateKind where
  | uninitialized
  | live
  | desynced
  deriving DecidableEq, Repr

namespace BookState

def isLive : BookState → Bool
  | .live .. => true
  | _ => false

def kind : BookState → BookStateKind
  | .uninitialized => .uninitialized
  | .live .. => .live
  | .desynced .. => .desynced

/-- Exact equality of states, with prices compared by value. -/
def sameAs : BookState → BookState → Bool
  | .desynced since reason, .desynced since' reason' => since = since' ∧ reason.sameAs reason'
  | s, s' => s = s'

/-- Equality of status, ignoring when the book was last verified. -/
def sameStatus : BookState → BookState → Bool
  | .uninitialized, .uninitialized => true
  | .live integrity since _, .live integrity' since' _ => integrity = integrity' ∧ since = since'
  | .desynced since reason, .desynced since' reason' => since = since' ∧ reason.sameAs reason'
  | _, _ => false

end BookState

inductive BookError where
  | notLive (state : BookStateKind)
  deriving DecidableEq, Repr

abbrev PriceMap := OrderedMap Price Qty Price.cmp

/-- Both sides, increasing in price: the best bid is last and the best ask is first. -/
structure Levels where
  bids : PriceMap
  asks : PriceMap
  deriving DecidableEq

/-- Enter the levels of a snapshot, skipping deletions. -/
def enterLevels (side : PriceMap) (levels : List Level) : PriceMap :=
  levels.foldl (fun m l => if l.qty.isDelete then m else m.insert l.price l.qty) side

/-- Apply updates in order; a zero quantity removes the level. -/
def applyLevels (side : PriceMap) (updates : List Level) : PriceMap :=
  updates.foldl
    (fun m l => if l.qty.isDelete then m.remove l.price else m.insert l.price l.qty) side

namespace Levels

def empty : Levels := ⟨OrderedMap.empty, OrderedMap.empty⟩

def snapshot (bids asks : List Level) : Levels :=
  ⟨enterLevels OrderedMap.empty bids, enterLevels OrderedMap.empty asks⟩

def delta (l : Levels) (bids asks : List Level) : Levels :=
  ⟨applyLevels l.bids bids, applyLevels l.asks asks⟩

def best (l : Levels) : Side → Option Level
  | .bid => l.bids.last?.map (fun e => ⟨e.1, e.2⟩)
  | .ask => l.asks.first?.map (fun e => ⟨e.1, e.2⟩)

/-- All levels of a side, best first. -/
def ranked (l : Levels) : Side → List Level
  | .bid => l.bids.entries.reverse.map (fun e => ⟨e.1, e.2⟩)
  | .ask => l.asks.entries.map (fun e => ⟨e.1, e.2⟩)

def topLevels (l : Levels) (side : Side) (n : Nat) : List Level := (l.ranked side).take n

/-- Drop the worst levels of each side beyond the depth. -/
def prune (l : Levels) : Option Nat → Levels
  | none => l
  | some max => ⟨l.bids.keepLast max, l.asks.keepFirst max⟩

/-- The best bid meets or crosses the best ask. -/
def crossed (l : Levels) : Option DesyncReason :=
  match l.best .bid, l.best .ask with
  | some bid, some ask =>
    if Price.cmp bid.price ask.price = .lt then none
    else some (.crossedBook bid.price ask.price)
  | _, _ => none

end Levels

structure Book where
  venue : VenueId
  symbol : Symbol
  levels : Levels
  state : BookState
  lastUpdate : Option IngestTime
  maxDepth : Option Nat
  deriving DecidableEq

structure TopOfBook where
  bid : Option Level
  ask : Option Level
  state : BookState
  age : Option Nat

namespace Book

def new (venue : VenueId) (symbol : Symbol) : Book where
  venue := venue
  symbol := symbol
  levels := Levels.empty
  state := .uninitialized
  lastUpdate := none
  maxDepth := none

def withMaxDepth (b : Book) (depth : Nat) : Book := { b with maxDepth := some depth }

def markDesynced (b : Book) (reason : DesyncReason) (now : IngestTime) : Book :=
  { b with state := .desynced now reason }

/-- Only a live book of a verifying venue can be marked. -/
def markVerified (b : Book) (now : IngestTime) : Book :=
  match b.state with
  | .live .verified since _ => { b with state := .live .verified since (some now) }
  | _ => b

def guardCrossed (b : Book) (now : IngestTime) : Except DesyncReason Unit × Book :=
  match b.levels.crossed with
  | none => (.ok (), b)
  | some reason => (.error reason, b.markDesynced reason now)

def applySnapshot (b : Book) (bids asks : List Level) (integrity : Integrity)
    (now : IngestTime) : Except DesyncReason Unit × Book :=
  { b with
    levels := (Levels.snapshot bids asks).prune b.maxDepth
    state := .live integrity now none
    lastUpdate := some now : Book }.guardCrossed now

def applyDelta (b : Book) (bids asks : List Level) (now : IngestTime) :
    Except BookError Unit × Book :=
  if b.state.isLive then
    (.ok (), ({ b with
      levels := (b.levels.delta bids asks).prune b.maxDepth
      lastUpdate := some now : Book }.guardCrossed now).2)
  else (.error (.notLive b.state.kind), b)

def topOfBook (b : Book) (now : IngestTime) : TopOfBook where
  bid := b.levels.best .bid
  ask := b.levels.best .ask
  state := b.state
  age := b.lastUpdate.map now.since

end Book

section Lemmas

variable {b : Book} {bids asks : List Level} {integrity : Integrity} {now : IngestTime}
  {reason : DesyncReason}

@[simp] theorem markDesynced_levels : (b.markDesynced reason now).levels = b.levels := rfl

@[simp] theorem markDesynced_state :
    (b.markDesynced reason now).state = .desynced now reason := rfl

@[simp] theorem markDesynced_maxDepth : (b.markDesynced reason now).maxDepth = b.maxDepth := rfl

@[simp] theorem markVerified_levels : (b.markVerified now).levels = b.levels := by
  rw [Book.markVerified]
  split <;> rfl

@[simp] theorem markVerified_maxDepth : (b.markVerified now).maxDepth = b.maxDepth := by
  rw [Book.markVerified]
  split <;> rfl

@[simp] theorem markVerified_isLive : (b.markVerified now).state.isLive = b.state.isLive := by
  rw [Book.markVerified]
  split
  · rename_i h
    rw [h]
    rfl
  · rfl

@[simp] theorem guardCrossed_levels : (b.guardCrossed now).2.levels = b.levels := by
  rw [Book.guardCrossed]
  split <;> rfl

@[simp] theorem guardCrossed_maxDepth : (b.guardCrossed now).2.maxDepth = b.maxDepth := by
  rw [Book.guardCrossed]
  split <;> rfl

theorem guardCrossed_state : (b.guardCrossed now).2.state =
    match b.levels.crossed with
    | none => b.state
    | some reason => .desynced now reason := by
  rw [Book.guardCrossed]
  split <;> simp_all

@[simp] theorem applySnapshot_levels : (b.applySnapshot bids asks integrity now).2.levels =
    (Levels.snapshot bids asks).prune b.maxDepth := guardCrossed_levels

@[simp] theorem applySnapshot_maxDepth :
    (b.applySnapshot bids asks integrity now).2.maxDepth = b.maxDepth := guardCrossed_maxDepth

theorem applySnapshot_state : (b.applySnapshot bids asks integrity now).2.state =
    match ((Levels.snapshot bids asks).prune b.maxDepth).crossed with
    | none => .live integrity now none
    | some reason => .desynced now reason := guardCrossed_state

theorem applyDelta_live (bids asks : List Level) (now : IngestTime)
    (h : b.state.isLive = true) :
    (b.applyDelta bids asks now).1 = .ok () ∧
      (b.applyDelta bids asks now).2.levels = (b.levels.delta bids asks).prune b.maxDepth ∧
      (b.applyDelta bids asks now).2.state =
        match ((b.levels.delta bids asks).prune b.maxDepth).crossed with
        | none => b.state
        | some reason => .desynced now reason := by
  simp only [Book.applyDelta, h, if_true, guardCrossed_levels, true_and]
  exact guardCrossed_state

theorem applyDelta_down (h : b.state.isLive = false) :
    b.applyDelta bids asks now = (.error (.notLive b.state.kind), b) := by
  simp [Book.applyDelta, h]

@[simp] theorem applyDelta_maxDepth : (b.applyDelta bids asks now).2.maxDepth = b.maxDepth := by
  rw [Book.applyDelta]
  split
  · exact guardCrossed_maxDepth
  · rfl

end Lemmas

end OrderBook
