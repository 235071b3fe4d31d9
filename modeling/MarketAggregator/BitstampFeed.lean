import MarketAggregator.WireLevels
import Mathlib.Data.List.Sort

/-!
# Bitstamp's sync discipline

The websocket carries updates only. Updates that arrive before a REST book are kept
and joined onto it, and updates that the REST book already covers are dropped. The
order of the venue's microtimestamps is the one thing that is checked.
-/

namespace BitstampFeed

open Decimals MarketEvents OrderBook VenueBooks VenueStreams WireLevels

universe u

/-- A message before its data is interpreted. `J` is an uninterpreted JSON value. -/
structure Envelope (J : Type u) where
  event : String
  channel : String
  data : J
  deriving DecidableEq

structure DiffData where
  microtimestamp : String
  bids : List (String × String)
  asks : List (String × String)
  deriving DecidableEq, Repr

structure TradeData where
  microtimestamp : String
  priceStr : String
  amountStr : String
  direction : Option Int
  deriving DecidableEq, Repr

structure RestOrderBook where
  microtimestamp : String
  bids : List (String × String)
  asks : List (String × String)
  deriving DecidableEq, Repr

/-- The JSON and decimal readers the venue's parser rests on. -/
structure BitstampWire (J : Type u) where
  envelope : Payload → Except String (Envelope J)
  diffData : J → Except String DiffData
  tradeData : J → Except String TradeData
  restOrderBook : String → Except String RestOrderBook
  decimals : DecimalText

structure PendingDiff where
  micros : Nat
  bids : List Level
  asks : List Level
  deriving DecidableEq

inductive Mode where
  | awaitingSnapshot (pending : List PendingDiff)
  | live (lastMicros splicedAt : Nat)
  deriving DecidableEq

structure BitstampSync where
  channel : String
  tradesChannel : String
  mode : Mode
  deriving DecidableEq

/-- Strictly increasing order, noting the number only when it is in order. -/
def checkOrder (lastMicros micros : Nat) : Option DesyncReason × Nat :=
  if micros ≤ lastMicros then (some (.timestampRegression lastMicros micros), lastMicros)
  else (none, micros)

/-- Updates checked in order, and the last number noted. -/
def splice (lastMicros : Nat) : List PendingDiff → List SyncAction × Nat
  | [] => ([], lastMicros)
  | diff :: diffs =>
    let checked := checkOrder lastMicros diff.micros
    let rest := splice checked.2 diffs
    ((match checked.1 with
      | some reason => .desync reason
      | none => .delta diff.bids diff.asks) :: rest.1, rest.2)

section Ingest

variable {J : Type u} (w : BitstampWire J)

def parseRestSnapshot (body : String) : Except VenueError RestSnapshot :=
  match w.restOrderBook body with
  | .error e => .error (.malformed e)
  | .ok parsed => do
    let asOf ← parseMicros parsed.microtimestamp
    let bids ← levelsFromStrPairs w.decimals parsed.bids
    let asks ← levelsFromStrPairs w.decimals parsed.asks
    return ⟨bids, asks, asOf⟩

def readDiff (data : J) : Except VenueError PendingDiff :=
  match w.diffData data with
  | .error e => .error (.malformed e)
  | .ok data => do
    let micros ← parseMicros data.microtimestamp
    let bids ← levelsFromStrPairs w.decimals data.bids
    let asks ← levelsFromStrPairs w.decimals data.asks
    return ⟨micros, bids, asks⟩

def takerSide : Option Int → Option Side
  | some 0 => some .bid
  | some 1 => some .ask
  | _ => none

/-- A print, which never touches the order of the updates. -/
def readTrade (data : J) : Except VenueError Ingested :=
  match w.tradeData data with
  | .error e => .error (.malformed e)
  | .ok data => do
    let micros ← parseMicros data.microtimestamp
    let level ← levelFromStrPair w.decimals data.priceStr data.amountStr
    return ⟨[.forward (.trade level.price level.qty (takerSide data.direction))],
      some (systemTimeFromMicros micros)⟩

namespace BitstampSync

def new (pair : String) : BitstampSync where
  channel := "diff_order_book_" ++ pair
  tradesChannel := "live_trades_" ++ pair
  mode := .awaitingSnapshot []

/-- One update of the pair: kept while a REST book is awaited, checked afterwards. -/
def ingestDiff (s : BitstampSync) (diff : PendingDiff) : List SyncAction × BitstampSync :=
  match s.mode with
  | .awaitingSnapshot pending =>
    -- Only the first one kept is reported, so that `since` is when trust was lost.
    ([if pending = [] then .desync .awaitingSnapshot else .ignore],
      { s with mode := .awaitingSnapshot (pending ++ [diff]) })
  | .live lastMicros splicedAt =>
    if diff.micros ≤ splicedAt then ([.ignore], s)
    else
      let checked := checkOrder lastMicros diff.micros
      ([match checked.1 with
        | some reason => .desync reason
        | none => .delta diff.bids diff.asks], { s with mode := .live checked.2 splicedAt })

def ingest (s : BitstampSync) (frame : RawFrame) : Except VenueError Ingested × BitstampSync :=
  match w.envelope frame.payload with
  | .error e => (.error (.malformed e), s)
  | .ok env =>
    if env.event = "trade" then
      if env.channel ≠ s.tradesChannel then
        (.error (.malformed ("trade for channel " ++ env.channel.quote ++ ", expected " ++
          s.tradesChannel.quote)), s)
      else (readTrade w env.data, s)
    else if env.event ≠ "data" then (.ok .ignored, s)
    else if env.channel ≠ s.channel then
      (.error (.malformed ("frame for channel " ++ env.channel.quote ++ ", expected " ++
        s.channel.quote)), s)
    else match readDiff w env.data with
      | .error e => (.error e, s)
      | .ok diff =>
        let ingested := s.ingestDiff diff
        (.ok ⟨ingested.1, some (systemTimeFromMicros diff.micros)⟩, ingested.2)

/-- Join what was kept onto the snapshot. A live book keeps nothing to join. -/
def applyRestSnapshot (s : BitstampSync) (snapshot : RestSnapshot) :
    List SyncAction × BitstampSync :=
  let pending := match s.mode with
    | .awaitingSnapshot pending => pending
    | .live .. => []
  let surviving := (pending.filter (fun d => snapshot.asOf < d.micros)).insertionSort
    (fun a b => a.micros ≤ b.micros)
  let spliced := splice snapshot.asOf surviving
  (.snapshot snapshot.bids snapshot.asks :: spliced.1,
    { s with mode := .live spliced.2 snapshot.asOf })

def sync : VenueSync BitstampSync where
  venue _ := .bitstamp
  integrity _ := .orderOnly
  recovery _ := .restSnapshot
  ingest := ingest w
  checksum _ _ := none
  reset s := { s with mode := .awaitingSnapshot [] }
  parseRestSnapshot _ := BitstampFeed.parseRestSnapshot w
  applyRestSnapshot := applyRestSnapshot

end BitstampSync

end Ingest

section Lemmas

theorem checkOrder_lt {lastMicros micros : Nat} (h : lastMicros < micros) :
    checkOrder lastMicros micros = (none, micros) := by
  simp [checkOrder, Nat.not_le.mpr h]

def PendingDiff.delta (d : PendingDiff) : SyncAction := .delta d.bids d.asks

/-- The number noted after increasing updates is the last one. -/
def lastMicros (asOf : Nat) (diffs : List PendingDiff) : Nat :=
  (diffs.getLast?.map PendingDiff.micros).getD asOf

theorem splice_increasing {asOf : Nat} {diffs : List PendingDiff}
    (above : ∀ d ∈ diffs, asOf < d.micros)
    (increasing : diffs.Pairwise (fun a b => a.micros < b.micros)) :
    splice asOf diffs = (diffs.map PendingDiff.delta, lastMicros asOf diffs) := by
  induction diffs generalizing asOf with
  | nil => rfl
  | cons diff diffs ih =>
    obtain ⟨first, increasing⟩ := List.pairwise_cons.mp increasing
    have rest := ih first increasing
    simp only [splice, checkOrder_lt (above diff List.mem_cons_self), rest]
    simp [PendingDiff.delta, lastMicros, List.getLast?_cons]

/-- Only the mode ever changes. -/
theorem ingestDiff_channels {s : BitstampSync} {diff : PendingDiff} :
    (s.ingestDiff diff).2 = { s with mode := (s.ingestDiff diff).2.mode } := by
  rw [BitstampSync.ingestDiff]
  split
  · rfl
  · split <;> rfl

theorem applyRestSnapshot_channels {s : BitstampSync} {snapshot : RestSnapshot} :
    (s.applyRestSnapshot snapshot).2 =
      { s with mode := (s.applyRestSnapshot snapshot).2.mode } := rfl

end Lemmas

/-- A wire that reads the listed texts, to run the model on them. -/
def tableWire (messages : List (String × Envelope String)) (diffs : List (String × DiffData))
    (books : List (String × RestOrderBook)) : BitstampWire String where
  envelope
    | .text s => match messages.lookup s with
      | some env => .ok env
      | none => .error "expected value"
    | .binary _ => .error "invalid unicode code point"
  diffData s := match diffs.lookup s with
    | some data => .ok data
    | none => .error "missing field"
  tradeData _ := .error "missing field"
  restOrderBook s := match books.lookup s with
    | some book => .ok book
    | none => .error "expected value"
  decimals := .plain

end BitstampFeed
