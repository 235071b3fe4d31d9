import MarketAggregator.DecimalLiterals
import MarketAggregator.WireLevels

/-!
# Kraken's sync discipline

Kraken numbers nothing. Every book message carries a hash of the top of the book
that the client should now hold, over the digits as they were sent. The sync keeps
no state but the pair.
-/

namespace KrakenFeed

open Decimals MarketEvents OrderBook VenueBooks VenueStreams WireLevels

/-- A message whose data is still the text it arrived as. -/
structure Envelope where
  channel : Option String
  kind : Option String
  data : Option String
  deriving DecidableEq, Repr

/-- Numbers in the text that they arrived as. -/
structure LevelText where
  price : String
  qty : String
  deriving DecidableEq, Repr

structure BookText where
  symbol : String
  bids : List LevelText
  asks : List LevelText
  checksum : Option UInt32
  timestamp : Option String
  deriving DecidableEq, Repr

structure TradeText where
  symbol : String
  price : String
  qty : String
  side : Option String
  timestamp : Option String
  deriving DecidableEq, Repr

structure WireLevel where
  price : Decimal
  qty : Decimal
  deriving DecidableEq

structure BookData where
  symbol : String
  bids : List WireLevel
  asks : List WireLevel
  checksum : Option UInt32
  timestamp : Option String
  deriving DecidableEq

structure TradeData where
  symbol : String
  price : Decimal
  qty : Decimal
  side : Option String
  timestamp : Option String
  deriving DecidableEq

/-- The JSON reader, which leaves numbers as texts and places an error in its data, the decimal
library's reader, and the timestamp reader and the hash of a text. -/
structure KrakenWire where
  envelope : Payload → Except String Envelope
  bookText : String → Except String (List BookText)
  tradeText : String → Except String (List TradeText)
  located : String → String → String
  decimal : String → Except String Decimal
  timestamp : String → Option Int
  crc32 : String → UInt32

namespace KrakenWire

variable (w : KrakenWire) (data : String)

/-- A number goes from its text to the decimal library, never through binary fractions. -/
def exactDecimal (raw : String) : Except String Decimal :=
  match w.decimal raw with
  | .ok d => .ok d
  | .error e => .error (w.located data ("bad decimal " ++ raw.quote ++ ": " ++ e))

def wireLevel (level : LevelText) : Except String WireLevel := do
  let price ← w.exactDecimal data level.price
  let qty ← w.exactDecimal data level.qty
  return ⟨price, qty⟩

def bookEntry (entry : BookText) : Except String BookData := do
  let bids ← entry.bids.mapM (w.wireLevel data)
  let asks ← entry.asks.mapM (w.wireLevel data)
  return ⟨entry.symbol, bids, asks, entry.checksum, entry.timestamp⟩

def bookData : Except String (List BookData) := do
  let entries ← w.bookText data
  entries.mapM (w.bookEntry data)

def tradeEntry (entry : TradeText) : Except String TradeData := do
  let price ← w.exactDecimal data entry.price
  let qty ← w.exactDecimal data entry.qty
  return ⟨entry.symbol, price, qty, entry.side, entry.timestamp⟩

def tradeData : Except String (List TradeData) := do
  let entries ← w.tradeText data
  entries.mapM (w.tradeEntry data)

end KrakenWire

structure KrakenSync where
  symbol : String
  deriving DecidableEq, Repr

/-- The digits of a number without its point and its leading zeros. -/
def pushDigits (rendered : String) : List Char :=
  let trimmed := (rendered.toList.filter (· ≠ '.')).dropWhile (· = '0')
  if trimmed = [] then ['0'] else trimmed

def levelDigits (level : Level) : List Char :=
  pushDigits level.price.decimal.toString ++ pushDigits level.qty.decimal.toString

section Ingest

variable (w : KrakenWire)

/-- The top ten asks, then the top ten bids, best first. -/
def checksum (levels : Levels) : UInt32 :=
  w.crc32 (String.ofList ((levels.topLevels .ask 10).flatMap levelDigits ++
    (levels.topLevels .bid 10).flatMap levelDigits))

def qtyOf (d : Decimal) : Except VenueError Qty :=
  match Qty.fromDecimal d with
  | .error e => .error (.malformed e.message)
  | .ok qty => .ok qty

def toLevels : List WireLevel → Except VenueError (List Level)
  | [] => .ok []
  | level :: levels => do
    let qty ← qtyOf level.qty
    let rest ← toLevels levels
    return ⟨⟨level.price⟩, qty⟩ :: rest

def takerSide : Option String → Option Side
  | some "buy" => some .bid
  | some "sell" => some .ask
  | _ => none

namespace KrakenSync

def new (symbol : String) : KrakenSync := ⟨symbol⟩

def bookAction (kind : String) (bids asks : List Level) : Except VenueError SyncAction :=
  match kind with
  | "snapshot" => .ok (.snapshot bids asks)
  | "update" => .ok (.delta bids asks)
  | other => .error (.malformed ("unknown book message type " ++ other.quote))

/-- The own pair's entries, each followed by its hash. The last timestamp wins. -/
def bookActions (s : KrakenSync) (kind : String) :
    Option Int → List BookData → Except VenueError Ingested
  | venueTs, [] => .ok ⟨[], venueTs⟩
  | venueTs, entry :: entries =>
    if entry.symbol ≠ s.symbol then bookActions s kind venueTs entries
    else do
      let bids ← toLevels entry.bids
      let asks ← toLevels entry.asks
      let action ← bookAction kind bids asks
      let rest ← bookActions s kind ((entry.timestamp.bind w.timestamp).or venueTs) entries
      return ⟨action :: (entry.checksum.map SyncAction.verify).toList ++ rest.actions,
        rest.venueTs⟩

def tradeActions (s : KrakenSync) : Option Int → List TradeData → Except VenueError Ingested
  | venueTs, [] => .ok ⟨[], venueTs⟩
  | venueTs, entry :: entries =>
    if entry.symbol ≠ s.symbol then tradeActions s venueTs entries
    else do
      let qty ← qtyOf entry.qty
      let rest ← tradeActions s ((entry.timestamp.bind w.timestamp).or venueTs) entries
      return ⟨.forward (.trade ⟨entry.price⟩ qty (takerSide entry.side)) :: rest.actions,
        rest.venueTs⟩

/-- The typed data of a message, re-read from its text. -/
def readData {T : Type} (read : String → Except String T) (channel : String)
    (data : Option String) : Except VenueError T :=
  match data with
  | none => .error (.malformed (channel ++ " message carried no \"data\""))
  | some raw => match read raw with
    | .error e => .error (.malformed e)
    | .ok entries => .ok entries

def channelIngested (s : KrakenSync) (env : Envelope) : Except VenueError Ingested :=
  match env.channel with
  | none => .ok .ignored
  | some "book" => match env.kind with
    | none => .error (.malformed "book message carried no \"type\"")
    | some kind => do
      let entries ← readData w.bookData "book" env.data
      s.bookActions w kind none entries
  | some "trade" => match env.kind with
    | none => .error (.malformed "trade message carried no \"type\"")
    | some "snapshot" => .ok .ignored
    | some _ => do
      let entries ← readData w.tradeData "trade" env.data
      s.tradeActions w none entries
  | some "heartbeat" => .ok (.untimed [.forward (.heartbeat none)])
  | some _ => .ok .ignored

def ingest (s : KrakenSync) (frame : RawFrame) : Except VenueError Ingested :=
  match w.envelope frame.payload with
  | .error e => .error (.malformed e)
  | .ok env => s.channelIngested w env

/-- Nothing is forgotten on a reset, and no REST book can be parsed. -/
def sync : VenueSync KrakenSync where
  venue _ := .kraken
  integrity _ := .verified
  recovery _ := .resubscribe
  ingest s frame := (s.ingest w frame, s)
  checksum _ levels := some (KrakenFeed.checksum w levels)
  reset s := s
  parseRestSnapshot _ _ := .error (.noRestSnapshot .kraken)
  applyRestSnapshot s _ := ([], s)

end KrakenSync

end Ingest

section Lemmas

variable {w : KrakenWire} {s : KrakenSync}

open KrakenSync

theorem bookAction_book {kind : String} {bids asks : List Level} {action : SyncAction}
    (h : bookAction kind bids asks = .ok action) : action.isBook = true := by
  simp only [bookAction] at h
  split at h
  · cases h
    rfl
  · cases h
    rfl
  · cases h

theorem tradeActions_passive (entries : List TradeData) {venueTs : Option Int}
    {ingested : Ingested} (h : s.tradeActions w venueTs entries = .ok ingested) :
    ∀ a ∈ ingested.actions, a.isPassive = true := by
  induction entries generalizing venueTs ingested with
  | nil =>
    cases h
    simp
  | cons entry entries ih =>
    rw [KrakenSync.tradeActions] at h
    split at h
    · exact ih h
    · obtain ⟨qty, _, h⟩ := bind_ok.mp h
      obtain ⟨rest, others, he⟩ := bind_ok.mp h
      cases he
      simpa [SyncAction.isPassive] using ih others

end Lemmas

/-- A wire that reads the listed messages and entries, and numbers as they are written, to run the
model on them. -/
def tableWire (messages : List (String × Envelope)) (books : List (String × List BookText))
    (crc32 : String → UInt32) : KrakenWire where
  envelope
    | .text s => match messages.lookup s with
      | some env => .ok env
      | none => .error "expected value"
    | .binary _ => .error "invalid unicode code point"
  bookText s := match books.lookup s with
    | some entries => .ok entries
    | none => .error "missing field"
  tradeText _ := .error "missing field"
  located _ e := e
  decimal s := match DecimalLiterals.literal s with
    | some d => .ok d
    | none => .error "Invalid decimal: unknown character"
  timestamp _ := none
  crc32 := crc32

end KrakenFeed
