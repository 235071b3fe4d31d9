import MarketAggregator.VenueDispatch

/-!
# The scripted venue

A venue with one wire format that runs under any integrity. What its discipline
notices of a lost message is what the venues of that integrity notice. With it the
interface has four implementations.
-/

namespace FakeFeed

open Clocks Decimals MarketEvents OrderBook VenueBooks VenueDispatch VenueStreams WireLevels

universe u v

abbrev Pairs := List (String × String)

inductive FakeMsg where
  | snapshot (seq : UInt64) (bids asks : Pairs)
  | delta (seq : UInt64) (bids asks : Pairs)
  | checksum (seq : UInt64) (value : UInt32)
  deriving DecidableEq

def FakeMsg.seq : FakeMsg → UInt64
  | .snapshot seq _ _ => seq
  | .delta seq _ _ => seq
  | .checksum seq _ => seq

/-- The JSON and decimal readers, and the hash of a text. -/
structure FakeWire where
  message : Payload → Except String FakeMsg
  decimals : DecimalText
  crc32 : String → UInt32

structure FakeSync where
  integrity : Integrity
  recovery : RecoveryStrategy
  expectedSeq : Option UInt64
  deriving DecidableEq

def fakeDigits (level : Level) : String :=
  level.price.decimal.toString ++ ":" ++ level.qty.decimal.toString ++ "|"

section Ingest

variable (w : FakeWire)

def toLevels : Pairs → Except VenueError (List Level)
  | [] => .ok []
  | (p, q) :: pairs =>
    match Price.parse w.decimals p with
    | .error _ => .error (.malformed ("price " ++ p.quote))
    | .ok price => match Qty.parse w.decimals q with
      | .error _ => .error (.malformed ("qty " ++ q.quote))
      | .ok qty => do
        let levels ← toLevels pairs
        return ⟨price, qty⟩ :: levels

def fakeChecksum (levels : Levels) : UInt32 :=
  w.crc32 (String.join ((levels.topLevels .bid 10).map fakeDigits ++
    (levels.topLevels .ask 10).map fakeDigits))

namespace FakeSync

def new (integrity : Integrity) : FakeSync where
  integrity := integrity
  recovery := match integrity with
    | .orderOnly => .restSnapshot
    | .gapDetectable => .resubscribe
    | .verified => .resubscribe
  expectedSeq := none

/-- The ordering field, noted whatever the answer and read as the discipline reads it. -/
def checkSeq (s : FakeSync) (seq : UInt64) : Option DesyncReason × FakeSync :=
  let noted := { s with expectedSeq := some (seq + 1) }
  match s.integrity, s.expectedSeq with
  | .gapDetectable, some expected =>
    if seq ≠ expected then (some (.sequenceGap expected seq), noted) else (none, noted)
  | .orderOnly, some expected =>
    if seq < expected then
      (some (.timestampRegression (expected.toNat - 1) seq.toNat), noted)
    else (none, noted)
  | _, _ => (none, noted)

/-- What a message says once its number has been accepted. -/
def accepted (s : FakeSync) : FakeMsg → Except VenueError Ingested
  | .snapshot _ bids asks => do
    let bids ← toLevels w bids
    let asks ← toLevels w asks
    return .untimed [.snapshot bids asks]
  | .delta _ bids asks => do
    let bids ← toLevels w bids
    let asks ← toLevels w asks
    return .untimed [.delta bids asks]
  | .checksum _ value => .ok (.untimed [match s.integrity with
    | .verified => .verify value
    | .orderOnly => .ignore
    | .gapDetectable => .ignore])

/-- A snapshot sets the number that is expected; every other message is checked. -/
def ingest (s : FakeSync) (frame : RawFrame) : Except VenueError Ingested × FakeSync :=
  if frame.stream.venue ≠ .fake then (.error (.wrongVenue .fake frame.stream.venue), s)
  else match w.message frame.payload with
    | .error e => (.error (.malformed e), s)
    | .ok (.snapshot seq bids asks) =>
      let noted := { s with expectedSeq := some (seq + 1) }
      (noted.accepted w (.snapshot seq bids asks), noted)
    | .ok message =>
      let checked := s.checkSeq message.seq
      match checked.1 with
      | some reason => (.ok (.untimed [.desync reason]), checked.2)
      | none => (checked.2.accepted w message, checked.2)

/-- The hash is there at the integrity that publishes one. -/
def sync : VenueSync FakeSync where
  venue _ := .fake
  integrity s := s.integrity
  recovery s := s.recovery
  ingest s := s.ingest w
  checksum s levels := match s.integrity with
    | .verified => some (fakeChecksum w levels)
    | .orderOnly => none
    | .gapDetectable => none
  reset s := { s with expectedSeq := none }
  parseRestSnapshot _ _ := .error (.noRestSnapshot .fake)
  applyRestSnapshot s _ := ([], s)

end FakeSync

end Ingest

/-- Any venue's sync, the scripted one among them. -/
inductive EverySync where
  | market (s : AnySync)
  | fake (s : FakeSync)
  deriving DecidableEq

structure EveryWires (J : Type u) (K : Type v) where
  markets : Wires J K
  fake : FakeWire

def everySync {J : Type u} {K : Type v} (w : EveryWires J K) : VenueSync EverySync where
  venue
    | .market s => (anySync w.markets).venue s
    | .fake s => (FakeSync.sync w.fake).venue s
  integrity
    | .market s => (anySync w.markets).integrity s
    | .fake s => (FakeSync.sync w.fake).integrity s
  recovery
    | .market s => (anySync w.markets).recovery s
    | .fake s => (FakeSync.sync w.fake).recovery s
  ingest
    | .market s, frame => ((anySync w.markets).ingest s frame).map id .market
    | .fake s, frame => ((FakeSync.sync w.fake).ingest s frame).map id .fake
  checksum
    | .market s => (anySync w.markets).checksum s
    | .fake s => (FakeSync.sync w.fake).checksum s
  reset
    | .market s => .market ((anySync w.markets).reset s)
    | .fake s => .fake ((FakeSync.sync w.fake).reset s)
  parseRestSnapshot
    | .market s => (anySync w.markets).parseRestSnapshot s
    | .fake s => (FakeSync.sync w.fake).parseRestSnapshot s
  applyRestSnapshot
    | .market s, snapshot => ((anySync w.markets).applyRestSnapshot s snapshot).map id .market
    | .fake s, snapshot => ((FakeSync.sync w.fake).applyRestSnapshot s snapshot).map id .fake

/-- Kinds that no book is built from. -/
def isPlain : EventKind → Bool
  | .trade .. => true
  | .heartbeat _ => true
  | _ => false

/-- A forwarded kind is a print or a heartbeat. -/
def forwardsPlain : SyncAction → Bool
  | .forward kind => isPlain kind
  | _ => true

/-- A venue claims one integrity and hashes one way, and forwards no book content. -/
structure Steady {σ : Type u} (v : VenueSync σ) : Prop where
  ingested : ∀ s frame, v.integrity (v.ingest s frame).2 = v.integrity s ∧
    v.checksum (v.ingest s frame).2 = v.checksum s
  spliced : ∀ s snapshot, v.integrity (v.applyRestSnapshot s snapshot).2 = v.integrity s ∧
    v.checksum (v.applyRestSnapshot s snapshot).2 = v.checksum s
  reset : ∀ s, v.integrity (v.reset s) = v.integrity s ∧ v.checksum (v.reset s) = v.checksum s
  plain : ∀ s frame ingested, (v.ingest s frame).1 = .ok ingested →
    ∀ a ∈ ingested.actions, forwardsPlain a = true
  plainSpliced : ∀ s snapshot, ∀ a ∈ (v.applyRestSnapshot s snapshot).1, forwardsPlain a = true

section Venues

open BitstampFeed CoinbaseFeed KrakenFeed

variable {J : Type u}

theorem plain_of_book {a : SyncAction} (h : a.isBook = true) : forwardsPlain a = true := by
  cases a <;> first | rfl | cases h

theorem heartbeats_plain {w : CoinbaseWire J} (events : List J) {kinds : List EventKind}
    (h : CoinbaseSync.heartbeats w events = .ok kinds) : ∀ kind ∈ kinds, isPlain kind = true := by
  induction events generalizing kinds with
  | nil =>
    cases h
    simp
  | cons raw events ih =>
    rw [CoinbaseSync.heartbeats] at h
    split at h
    · cases h
    · obtain ⟨rest, others, he⟩ := bind_ok.mp h
      cases he
      simpa [isPlain] using ih others

theorem ownTrades_plain {w : CoinbaseWire J} {s : CoinbaseSync} (trades : List WireTrade)
    {kinds : List EventKind} (h : s.ownTrades w trades = .ok kinds) :
    ∀ kind ∈ kinds, isPlain kind = true := by
  induction trades generalizing kinds with
  | nil =>
    cases h
    simp
  | cons trade trades ih =>
    rw [CoinbaseSync.ownTrades] at h
    split at h
    · exact ih h
    · obtain ⟨level, _, h⟩ := bind_ok.mp h
      obtain ⟨rest, others, he⟩ := bind_ok.mp h
      cases he
      simpa [isPlain] using ih others

theorem forward_plain {kinds : List EventKind} (h : ∀ kind ∈ kinds, isPlain kind = true) :
    ∀ a ∈ kinds.map SyncAction.forward, forwardsPlain a = true := by
  intro a mem
  obtain ⟨kind, here, rfl⟩ := List.mem_map.mp mem
  exact h kind here

theorem trades_plain {w : CoinbaseWire J} {s : CoinbaseSync} (events : List J)
    {actions : List SyncAction} (h : s.trades w events = .ok actions) :
    ∀ a ∈ actions, forwardsPlain a = true := by
  induction events generalizing actions with
  | nil =>
    cases h
    simp
  | cons raw events ih =>
    rw [CoinbaseSync.trades] at h
    split at h
    · cases h
    · rename_i event _
      split at h
      · obtain ⟨more, rest, he⟩ := bind_ok.mp h
        obtain rfl : .ignore :: more = actions := Except.ok.inj he
        simpa [forwardsPlain] using ih rest
      · obtain ⟨kinds, prints, h⟩ := bind_ok.mp h
        obtain ⟨more, rest, he⟩ := bind_ok.mp h
        obtain rfl : kinds.map SyncAction.forward ++ more = actions := Except.ok.inj he
        intro a mem
        rcases List.mem_append.mp mem with mem | mem
        · exact forward_plain (ownTrades_plain event.trades prints) a mem
        · exact ih rest a mem

theorem coinbase_plain {w : CoinbaseWire J} {s : CoinbaseSync} {frame : RawFrame}
    {ingested : Ingested} (h : (s.ingest w frame).1 = .ok ingested) :
    ∀ a ∈ ingested.actions, forwardsPlain a = true := by
  rw [CoinbaseSync.ingest] at h
  split at h
  · cases h
  · rename_i env _
    dsimp only at h
    split at h
    · cases h
      simp [forwardsPlain]
    · obtain ⟨actions, channel, rfl⟩ := map_ok.mp h
      rw [CoinbaseSync.channelActions] at channel
      split at channel
      · exact fun a mem => plain_of_book (bookEvents_book env.events channel a mem)
      · split at channel
        · obtain ⟨kinds, beats, rfl⟩ := map_ok.mp channel
          exact forward_plain (heartbeats_plain env.events beats)
        · split at channel
          · exact trades_plain env.events channel
          · cases channel
            simp [forwardsPlain]

theorem bookActions_plain {w : KrakenWire} {s : KrakenSync} {kind : String}
    (entries : List BookData) {venueTs : Option Int} {ingested : Ingested}
    (h : s.bookActions w kind venueTs entries = .ok ingested) :
    ∀ a ∈ ingested.actions, forwardsPlain a = true := by
  induction entries generalizing venueTs ingested with
  | nil =>
    cases h
    simp
  | cons entry entries ih =>
    rw [KrakenSync.bookActions] at h
    split at h
    · exact ih h
    · obtain ⟨bids, _, h⟩ := bind_ok.mp h
      obtain ⟨asks, _, h⟩ := bind_ok.mp h
      obtain ⟨action, typed, h⟩ := bind_ok.mp h
      obtain ⟨rest, others, made⟩ := bind_ok.mp h
      cases made
      intro a mem
      rcases List.mem_cons.mp mem with rfl | mem
      · exact plain_of_book (bookAction_book typed)
      · rcases List.mem_append.mp mem with mem | mem
        · obtain ⟨checksum, _, rfl⟩ := List.mem_map.mp (Option.toList_map ▸ mem)
          rfl
        · exact ih others a mem

theorem tradeActions_plain {w : KrakenWire} {s : KrakenSync} (entries : List KrakenFeed.TradeData)
    {venueTs : Option Int} {ingested : Ingested}
    (h : s.tradeActions w venueTs entries = .ok ingested) :
    ∀ a ∈ ingested.actions, forwardsPlain a = true := by
  induction entries generalizing venueTs ingested with
  | nil =>
    cases h
    simp
  | cons entry entries ih =>
    rw [KrakenSync.tradeActions] at h
    split at h
    · exact ih h
    · obtain ⟨qty, _, h⟩ := bind_ok.mp h
      obtain ⟨rest, others, he⟩ := bind_ok.mp h
      cases he
      simpa [forwardsPlain, isPlain] using ih others

theorem kraken_plain {w : KrakenWire} {s : KrakenSync} {frame : RawFrame}
    {ingested : Ingested} (h : s.ingest w frame = .ok ingested) :
    ∀ a ∈ ingested.actions, forwardsPlain a = true := by
  rw [KrakenSync.ingest] at h
  split at h
  · cases h
  · rw [KrakenSync.channelIngested] at h
    split at h
    · cases h
      simp [Ingested.ignored, Ingested.untimed, forwardsPlain]
    · split at h
      · cases h
      · obtain ⟨entries, _, read⟩ := bind_ok.mp h
        exact bookActions_plain entries read
    · split at h
      · cases h
      · cases h
        simp [Ingested.ignored, Ingested.untimed, forwardsPlain]
      · obtain ⟨entries, _, read⟩ := bind_ok.mp h
        exact tradeActions_plain entries read
    · cases h
      simp [Ingested.untimed, forwardsPlain, isPlain]
    · cases h
      simp [Ingested.ignored, Ingested.untimed, forwardsPlain]

theorem splice_plain (asOf : Nat) (diffs : List PendingDiff) :
    ∀ a ∈ (splice asOf diffs).1, forwardsPlain a = true := by
  induction diffs generalizing asOf with
  | nil => simp [splice]
  | cons diff diffs ih =>
    intro a mem
    rcases List.mem_cons.mp mem with rfl | mem
    · by_cases h : diff.micros ≤ asOf <;> simp [checkOrder, h, forwardsPlain]
    · exact ih _ a mem

theorem ingestDiff_plain (s : BitstampSync) (diff : PendingDiff) :
    ∀ a ∈ (s.ingestDiff diff).1, forwardsPlain a = true := by
  rw [BitstampSync.ingestDiff]
  cases s.mode with
  | awaitingSnapshot pending => by_cases first : pending = [] <;> simp [first, forwardsPlain]
  | live last spliced =>
    by_cases covered : diff.micros ≤ spliced
    · simp [covered, forwardsPlain]
    · by_cases order : diff.micros ≤ last <;> simp [covered, checkOrder, order, forwardsPlain]

theorem bitstamp_plain {w : BitstampWire J} {s : BitstampSync} {frame : RawFrame}
    {ingested : Ingested} (h : (s.ingest w frame).1 = .ok ingested) :
    ∀ a ∈ ingested.actions, forwardsPlain a = true := by
  rw [BitstampSync.ingest] at h
  split at h
  · cases h
  · dsimp only at h
    split at h
    · split at h
      · cases h
      · dsimp only at h
        rw [readTrade] at h
        split at h
        · cases h
        · obtain ⟨micros, _, h⟩ := bind_ok.mp h
          obtain ⟨level, _, h⟩ := bind_ok.mp h
          cases h
          simp [forwardsPlain, isPlain]
    · split at h
      · cases h
        simp [Ingested.ignored, Ingested.untimed, forwardsPlain]
      · split at h
        · cases h
        · split at h
          · cases h
          · rename_i diff _
            cases h
            exact ingestDiff_plain s diff

theorem accepted_plain {w : FakeWire} {s : FakeSync} {message : FakeMsg} {ingested : Ingested}
    (h : s.accepted w message = .ok ingested) : ∀ a ∈ ingested.actions, forwardsPlain a = true := by
  cases message with
  | snapshot seq bids asks =>
    obtain ⟨bids, _, h⟩ := bind_ok.mp h
    obtain ⟨asks, _, h⟩ := bind_ok.mp h
    cases h
    simp [Ingested.untimed, forwardsPlain]
  | delta seq bids asks =>
    obtain ⟨bids, _, h⟩ := bind_ok.mp h
    obtain ⟨asks, _, h⟩ := bind_ok.mp h
    cases h
    simp [Ingested.untimed, forwardsPlain]
  | checksum seq value =>
    cases h
    cases integrity : s.integrity <;> simp [Ingested.untimed, forwardsPlain]

theorem checkSeq_integrity (s : FakeSync) (seq : UInt64) :
    (s.checkSeq seq).2.integrity = s.integrity := by
  rw [FakeSync.checkSeq]
  split
  · split <;> rfl
  · split <;> rfl
  · rfl

/-- The scripted venue keeps its discipline and forwards nothing. -/
theorem fake_ingest (w : FakeWire) (s : FakeSync) (frame : RawFrame) :
    (s.ingest w frame).2.integrity = s.integrity ∧
      ∀ ingested, (s.ingest w frame).1 = .ok ingested →
        ∀ a ∈ ingested.actions, forwardsPlain a = true := by
  rw [FakeSync.ingest]
  split
  · exact ⟨rfl, fun _ made => by cases made⟩
  · split
    · exact ⟨rfl, fun _ made => by cases made⟩
    · dsimp only
      exact ⟨rfl, fun _ made => accepted_plain made⟩
    · dsimp only
      split
      · refine ⟨checkSeq_integrity .., fun _ made => ?_⟩
        cases made
        simp [Ingested.untimed, forwardsPlain]
      · exact ⟨checkSeq_integrity .., fun _ made => accepted_plain made⟩

/-- Each of the venues claims and hashes the same in every state. -/
theorem everySync_steady {J : Type u} {K : Type v} (w : EveryWires J K) : Steady (everySync w) where
  ingested := by
    intro s frame
    cases s with
    | market s => cases s <;> exact ⟨rfl, rfl⟩
    | fake s =>
      have same := (fake_ingest w.fake s frame).1
      exact ⟨same, by simp only [everySync, FakeSync.sync, Prod.map_snd, same]⟩
  spliced := by
    intro s snapshot
    cases s with
    | market s => cases s <;> exact ⟨rfl, rfl⟩
    | fake s => exact ⟨rfl, rfl⟩
  reset := by
    intro s
    cases s with
    | market s => cases s <;> exact ⟨rfl, rfl⟩
    | fake s => exact ⟨rfl, rfl⟩
  plain := by
    intro s frame ingested made
    cases s with
    | fake s => exact (fake_ingest w.fake s frame).2 ingested made
    | market s =>
      cases s with
      | coinbase s => exact coinbase_plain made
      | kraken s => exact kraken_plain made
      | bitstamp s => exact bitstamp_plain made
  plainSpliced := by
    intro s snapshot
    cases s with
    | fake s => simp [everySync, FakeSync.sync]
    | market s =>
      cases s with
      | coinbase s => simp [everySync, anySync, CoinbaseSync.sync]
      | kraken s => simp [everySync, anySync, KrakenSync.sync]
      | bitstamp s =>
        intro a mem
        rcases List.mem_cons.mp mem with rfl | mem
        · rfl
        · exact splice_plain _ _ a mem

end Venues

end FakeFeed
