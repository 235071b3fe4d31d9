import MarketAggregator.WireLevels

/-!
# Coinbase's sync discipline

Every message on a connection carries a sequence number, counted over all of its
channels. The number is checked before the channel is looked at, and it is noted
before the events are parsed. The snapshot arrives over the websocket itself.
-/

namespace CoinbaseFeed

open Decimals MarketEvents OrderBook VenueBooks VenueStreams WireLevels

universe u

/-- A message before its events are interpreted. `J` is an uninterpreted JSON value. -/
structure Envelope (J : Type u) where
  channel : String
  sequenceNum : UInt64
  timestamp : Option String
  events : List J
  deriving DecidableEq

inductive L2Kind where
  | snapshot
  | update
  deriving DecidableEq, Repr

structure L2Update where
  side : Side
  priceLevel : String
  newQuantity : String
  deriving DecidableEq, Repr

structure L2Event where
  kind : L2Kind
  productId : String
  updates : List L2Update
  deriving DecidableEq, Repr

structure WireTrade where
  productId : String
  price : String
  size : String
  takerSide : Option Side
  deriving DecidableEq, Repr

structure TradesEvent where
  kind : L2Kind
  trades : List WireTrade
  deriving DecidableEq, Repr

structure PriceBook where
  bids : List (String × String)
  asks : List (String × String)
  deriving DecidableEq, Repr

/-- The JSON, decimal and timestamp readers the venue's parser rests on. -/
structure CoinbaseWire (J : Type u) where
  envelope : Payload → Except String (Envelope J)
  l2Event : J → Except String L2Event
  heartbeatCounter : J → Except String UInt64
  tradesEvent : J → Except String TradesEvent
  productBook : String → Except String PriceBook
  timestamp : String → Option Int
  decimals : DecimalText

structure CoinbaseSync where
  productId : String
  expectedSeq : Option UInt64
  deriving DecidableEq, Repr

section Ingest

variable {J : Type u} (w : CoinbaseWire J)

def parseRestSnapshot (body : String) : Except VenueError RestSnapshot :=
  match w.productBook body with
  | .error e => .error (.malformed e)
  | .ok parsed => do
    let bids ← levelsFromStrPairs w.decimals parsed.bids
    let asks ← levelsFromStrPairs w.decimals parsed.asks
    return ⟨bids, asks, 0⟩

namespace CoinbaseSync

def new (productId : String) : CoinbaseSync := ⟨productId, none⟩

/-- Contiguity, noting the number whatever the answer. Sequence numbers wrap. -/
def checkSeq (s : CoinbaseSync) (seq : UInt64) : Option DesyncReason × CoinbaseSync :=
  let noted := { s with expectedSeq := some (seq + 1) }
  match s.expectedSeq with
  | some expected =>
    if seq ≠ expected then (some (.sequenceGap expected seq), noted) else (none, noted)
  | none => (none, noted)

def splitUpdates : List L2Update → Except VenueError (List Level × List Level)
  | [] => .ok ([], [])
  | u :: updates => do
    let level ← levelFromStrPair w.decimals u.priceLevel u.newQuantity
    let sides ← splitUpdates updates
    return match u.side with
      | .bid => (level :: sides.1, sides.2)
      | .ask => (sides.1, level :: sides.2)

/-- The own product's book events of one message; any unreadable event fails it. -/
def bookEvents (s : CoinbaseSync) : List J → Except VenueError (List SyncAction)
  | [] => .ok []
  | raw :: events => match w.l2Event raw with
    | .error e => .error (.malformed e)
    | .ok event =>
      if event.productId ≠ s.productId then bookEvents s events
      else do
        let sides ← splitUpdates w event.updates
        let rest ← bookEvents s events
        return (match event.kind with
          | .snapshot => .snapshot sides.1 sides.2
          | .update => .delta sides.1 sides.2) :: rest

def heartbeats : List J → Except VenueError (List EventKind)
  | [] => .ok []
  | raw :: events => match w.heartbeatCounter raw with
    | .error e => .error (.malformed e)
    | .ok counter => do
      let rest ← heartbeats events
      return .heartbeat (some counter) :: rest

def ownTrades (s : CoinbaseSync) : List WireTrade → Except VenueError (List EventKind)
  | [] => .ok []
  | trade :: trades =>
    if trade.productId ≠ s.productId then ownTrades s trades
    else do
      let level ← levelFromStrPair w.decimals trade.price trade.size
      let rest ← ownTrades s trades
      return .trade level.price level.qty trade.takerSide :: rest

/-- Prints to forward. A snapshot of recent trades is history and is ignored. -/
def trades (s : CoinbaseSync) : List J → Except VenueError (List SyncAction)
  | [] => .ok []
  | raw :: events => match w.tradesEvent raw with
    | .error e => .error (.malformed e)
    | .ok event => match event.kind with
      | .snapshot => do
        let rest ← trades s events
        return .ignore :: rest
      | .update => do
        let prints ← ownTrades w s event.trades
        let rest ← trades s events
        return prints.map .forward ++ rest

def channelActions (s : CoinbaseSync) (env : Envelope J) : Except VenueError (List SyncAction) :=
  if env.channel = "l2_data" then s.bookEvents w env.events
  else if env.channel = "heartbeats" then
    (heartbeats w env.events).map (List.map SyncAction.forward)
  else if env.channel = "market_trades" then s.trades w env.events
  else .ok [.ignore]

def ingest (s : CoinbaseSync) (frame : RawFrame) : Except VenueError Ingested × CoinbaseSync :=
  match w.envelope frame.payload with
  | .error e => (.error (.malformed e), s)
  | .ok env =>
    let venueTs := env.timestamp.bind w.timestamp
    let checked := s.checkSeq env.sequenceNum
    match checked.1 with
    | some reason => (.ok ⟨[.desync reason], venueTs⟩, checked.2)
    | none => ((checked.2.channelActions w env).map (fun actions => ⟨actions, venueTs⟩), checked.2)

/-- The venue can parse a REST book but never splices one. -/
def sync : VenueSync CoinbaseSync where
  venue _ := .coinbase
  integrity _ := .gapDetectable
  recovery _ := .resubscribe
  ingest := ingest w
  checksum _ _ := none
  reset s := { s with expectedSeq := none }
  parseRestSnapshot _ := CoinbaseFeed.parseRestSnapshot w
  applyRestSnapshot s _ := ([], s)

end CoinbaseSync

end Ingest

section Lemmas

variable {J : Type u} {w : CoinbaseWire J} {s : CoinbaseSync} {seq : UInt64}

open CoinbaseSync

@[simp] theorem checkSeq_expected : (s.checkSeq seq).2.expectedSeq = some (seq + 1) := by
  rw [checkSeq]
  cases s.expectedSeq with
  | none => rfl
  | some expected => by_cases h : seq = expected <;> simp [h]

@[simp] theorem checkSeq_product : (s.checkSeq seq).2.productId = s.productId := by
  rw [checkSeq]
  cases s.expectedSeq with
  | none => rfl
  | some expected => by_cases h : seq = expected <;> simp [h]

/-- The number is accepted when nothing was expected or it is the expected one. -/
theorem checkSeq_none : (s.checkSeq seq).1 = none ↔ ∀ expected ∈ s.expectedSeq, seq = expected := by
  rw [checkSeq]
  cases s.expectedSeq with
  | none => simp
  | some expected => by_cases h : seq = expected <;> simp [h]

theorem checkSeq_gap {reason : DesyncReason} (h : (s.checkSeq seq).1 = some reason) :
    ∃ expected, reason = .sequenceGap expected seq := by
  rw [checkSeq] at h
  cases expects : s.expectedSeq with
  | none => simp [expects] at h
  | some expected =>
    by_cases same : seq = expected
    · simp [expects, same] at h
    · simp only [expects, ne_eq, same, not_false_eq_true, if_true, Option.some.injEq] at h
      exact ⟨expected, h.symm⟩

/-- Events depend on the product only. -/
theorem bookEvents_congr {t : CoinbaseSync} (h : t.productId = s.productId) (events : List J) :
    t.bookEvents w events = s.bookEvents w events := by
  induction events with
  | nil => rfl
  | cons raw events ih => simp only [bookEvents, ih, h]

/-- The book channel yields snapshots and updates and nothing else. -/
theorem bookEvents_book (events : List J) {actions : List SyncAction}
    (h : s.bookEvents w events = .ok actions) : ∀ a ∈ actions, a.isBook = true := by
  induction events generalizing actions with
  | nil =>
    cases h
    simp
  | cons raw events ih =>
    rw [CoinbaseSync.bookEvents] at h
    split at h
    · cases h
    · rename_i event _
      split at h
      · exact ih h
      · obtain ⟨sides, _, h⟩ := bind_ok.mp h
        obtain ⟨more, rest, he⟩ := bind_ok.mp h
        cases he
        intro a mem
        rcases List.mem_cons.mp mem with rfl | mem
        · cases event.kind <;> rfl
        · exact ih rest a mem

theorem trades_passive (events : List J) {actions : List SyncAction}
    (h : s.trades w events = .ok actions) : ∀ a ∈ actions, a.isPassive = true := by
  induction events generalizing actions with
  | nil =>
    cases h
    simp
  | cons raw events ih =>
    rw [CoinbaseSync.trades] at h
    split at h
    · cases h
    · rename_i event _
      split at h
      · obtain ⟨more, rest, he⟩ := bind_ok.mp h
        obtain rfl : .ignore :: more = actions := Except.ok.inj he
        simpa [SyncAction.isPassive] using ih rest
      · obtain ⟨kinds, _, h⟩ := bind_ok.mp h
        obtain ⟨more, rest, he⟩ := bind_ok.mp h
        obtain rfl : kinds.map SyncAction.forward ++ more = actions := Except.ok.inj he
        intro a mem
        rcases List.mem_append.mp mem with mem | mem
        · obtain ⟨kind, _, rfl⟩ := List.mem_map.mp mem
          rfl
        · exact ih rest a mem

/-- Outside the book channel nothing but pass-through actions comes out. -/
theorem channelActions_passive {env : Envelope J} {actions : List SyncAction}
    (other : env.channel ≠ "l2_data") (h : s.channelActions w env = .ok actions) :
    ∀ a ∈ actions, a.isPassive = true := by
  rw [channelActions] at h
  rw [if_neg other] at h
  split at h
  · obtain ⟨kinds, _, rfl⟩ := map_ok.mp h
    intro a mem
    obtain ⟨kind, _, rfl⟩ := List.mem_map.mp mem
    rfl
  · split at h
    · exact trades_passive env.events h
    · cases h
      simp [SyncAction.isPassive]

end Lemmas

/-- A wire that reads the listed message and event texts, to run the model on them. -/
def tableWire (messages : List (String × Envelope String)) (events : List (String × L2Event)) :
    CoinbaseWire String where
  envelope
    | .text s => match messages.lookup s with
      | some env => .ok env
      | none => .error "expected value"
    | .binary _ => .error "invalid unicode code point"
  l2Event s := match events.lookup s with
    | some event => .ok event
    | none => .error "unknown variant"
  heartbeatCounter _ := .error "missing field"
  tradesEvent _ := .error "missing field"
  productBook _ := .error "missing field"
  timestamp _ := none
  decimals := .plain

end CoinbaseFeed
