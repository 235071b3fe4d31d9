import MarketAggregator.MarketEvents
import Mathlib.Algebra.Group.Int.Defs
import Mathlib.Data.List.Basic

/-!
# Events as rows of an archive file and back

An event becomes one row a level, or one row if it has no levels. Rows carry the
number of their event, and consecutive rows of one number are one event again. A file
is read in batches whose boundaries may fall inside an event.
-/

namespace ArchiveRows

open Clocks Decimals MarketEvents VenueStreams

def i64Max : Int := 2 ^ 63 - 1

/-- Nanoseconds since the epoch as 64 bits with a sign, clamped. -/
def unixNanos (wall : Int) : Int := if 0 ≤ wall then min wall i64Max else -(min (-wall) i64Max)

def asI64 (n : Nat) : Int := min n i64Max

structure Row where
  eventSeq : Int
  venue : String
  symbol : String
  kind : String
  ingestWall : Int
  ingestElapsed : Int
  venueTs : Option Int
  side : Option String
  price : Option String
  qty : Option String
  levelIndex : Option Int
  checksum : Option UInt32
  heartbeatCounter : Option Int
  takerSide : Option String
  deriving DecidableEq

namespace Kind

def snapshot : String := "snapshot"

def delta : String := "delta"

def trade : String := "trade"

def checksum : String := "checksum"

def heartbeat : String := "heartbeat"

end Kind

def sideStr : Side → String
  | .bid => "bid"
  | .ask => "ask"

section Flatten

variable (event : MarketEvent) (eventSeq : Int) (base : IngestTime)

def template : Row where
  eventSeq := eventSeq
  venue := event.venue.asStr
  symbol := event.symbol.text
  kind := Kind.heartbeat
  ingestWall := unixNanos event.ingestTs.wall
  ingestElapsed := asI64 (event.ingestTs.since base)
  venueTs := event.venueTs.map unixNanos
  side := none
  price := none
  qty := none
  levelIndex := none
  checksum := none
  heartbeatCounter := none
  takerSide := none

def levelRow (kind : String) (side : Side) (i : Nat) (level : Level) : Row :=
  { template event eventSeq base with
    kind := kind
    side := some (sideStr side)
    price := some level.price.decimal.toString
    qty := some level.qty.decimal.toString
    levelIndex := some (min i (2 ^ 31 - 1)) }

/-- Bids and then asks. An event without levels still has a row. -/
def levelRows (kind : String) (bids asks : List Level) : List Row :=
  match bids.mapIdx (levelRow event eventSeq base kind .bid) ++
      asks.mapIdx (levelRow event eventSeq base kind .ask) with
  | [] => [{ template event eventSeq base with kind := kind }]
  | row :: rows => row :: rows

def flatten : List Row :=
  match event.kind with
  | .snapshot bids asks => levelRows event eventSeq base Kind.snapshot bids asks
  | .delta bids asks => levelRows event eventSeq base Kind.delta bids asks
  | .trade price qty takerSide =>
    [{ template event eventSeq base with
      kind := Kind.trade
      price := some price.decimal.toString
      qty := some qty.decimal.toString
      takerSide := takerSide.map sideStr }]
  | .checksum value =>
    [{ template event eventSeq base with kind := Kind.checksum, checksum := some value }]
  | .heartbeat counter =>
    [{ template event eventSeq base with
      kind := Kind.heartbeat
      heartbeatCounter := counter.map (fun c => asI64 c.toNat) }]

end Flatten

/-- `row` counts from the start of a batch. -/
inductive ReadError where
  | store (key : List Char)
  | parquet
  | column (name : String)
  | unknown (row : Nat) (field value : String)
  | incomplete (row : Nat) (kind field : String)
  deriving DecidableEq

/-- What a file gives back of an event. The monotonic clock of the writer is not in it. -/
structure StoredEvent where
  stream : StreamId
  venueTs : Option Int
  ingestWall : Int
  kind : EventKind
  elapsed : Nat
  deriving DecidableEq

/-- The event whose rows are being read, and its levels so far. -/
structure Gathered where
  seq : Int
  event : StoredEvent
  bids : List Level
  asks : List Level
  deriving DecidableEq

def Gathered.push (g : Gathered) (side : Side) (level : Level) : Gathered :=
  match side with
  | .bid => { g with bids := g.bids ++ [level] }
  | .ask => { g with asks := g.asks ++ [level] }

def Gathered.finish (g : Gathered) : StoredEvent :=
  match g.event.kind with
  | .snapshot _ _ => { g.event with kind := .snapshot g.bids g.asks }
  | .delta _ _ => { g.event with kind := .delta g.bids g.asks }
  | _ => g.event

def parseVenue (raw : String) (row : Nat) : Except ReadError VenueId :=
  if raw = "coinbase" then .ok .coinbase
  else if raw = "kraken" then .ok .kraken
  else if raw = "bitstamp" then .ok .bitstamp
  else if raw = "fake" then .ok .fake
  else .error (.unknown row "venue" raw)

def parseSide (raw : String) (row : Nat) : Except ReadError Side :=
  if raw = "bid" then .ok .bid
  else if raw = "ask" then .ok .ask
  else .error (.unknown row "side" raw)

def parseTaker (raw : Option String) (row : Nat) : Except ReadError (Option Side) :=
  match raw with
  | none => .ok none
  | some raw => (parseSide raw row).map some

section Decode

variable (text : DecimalText)

/-- A column that is null reads as the empty string. -/
def parsePrice (raw : Option String) (row : Nat) : Except ReadError Price :=
  (Price.parse text (raw.getD "")).mapError (fun _ => .unknown row "price" (raw.getD ""))

def parseQty (raw : Option String) (row : Nat) : Except ReadError Qty :=
  (Qty.parse text (raw.getD "")).mapError (fun _ => .unknown row "qty" (raw.getD ""))

/-- The kind with no levels and, for a trade, with a price and quantity to be overwritten. -/
def emptyKind (r : Row) (row : Nat) : Except ReadError EventKind :=
  if r.kind = Kind.snapshot then .ok (.snapshot [] [])
  else if r.kind = Kind.delta then .ok (.delta [] [])
  else if r.kind = Kind.checksum then
    match r.checksum with
    | some value => .ok (.checksum value)
    | none => .error (.incomplete row Kind.checksum "checksum")
  else if r.kind = Kind.heartbeat then
    .ok (.heartbeat (r.heartbeatCounter.map (fun c => UInt64.ofNat c.natAbs)))
  else if r.kind = Kind.trade then do
    let price ← parsePrice text (some "0") row
    let qty ← parseQty text (some "0") row
    .ok (.trade price qty none)
  else .error (.unknown row "kind" r.kind)

/-- Start gathering the event of a row. -/
def begin (r : Row) (row : Nat) : Except ReadError Gathered := do
  let venue ← parseVenue r.venue row
  let kind ← emptyKind text r row
  let event : StoredEvent :=
    ⟨⟨venue, ⟨r.symbol⟩⟩, r.venueTs, r.ingestWall, kind, r.ingestElapsed.natAbs⟩
  .ok ⟨r.eventSeq, event, [], []⟩

/-- The trade on a row, with everything a trade needs. -/
def tradeOf (r : Row) (row : Nat) : Except ReadError EventKind :=
  if r.price = none then .error (.incomplete row Kind.trade "price")
  else if r.qty = none then .error (.incomplete row Kind.trade "qty")
  else do
    let price ← parsePrice text r.price row
    let qty ← parseQty text r.qty row
    let takerSide ← parseTaker r.takerSide row
    .ok (.trade price qty takerSide)

/-- Add the row's trade or level to the event it belongs to. -/
def addRow (g : Gathered) (r : Row) (row : Nat) : Except ReadError Gathered :=
  if r.kind = Kind.trade then do
    let kind ← tradeOf text r row
    .ok { g with event := { g.event with kind := kind } }
  else match r.side with
    | none => .ok g
    | some raw => do
      let price ← parsePrice text r.price row
      let qty ← parseQty text r.qty row
      let side ← parseSide raw row
      .ok (g.push side ⟨price, qty⟩)

def firstRow (r : Row) (row : Nat) : Except ReadError Gathered := do
  let g ← begin text r row
  addRow text g r row

/-- An event that is being gathered, and those that are complete. -/
structure Progress where
  gathering : Option Gathered
  out : List StoredEvent
  deriving DecidableEq

/-- A row of another number completes the event before it. -/
def decodeRow (p : Progress) (r : Row) (row : Nat) : Except ReadError Progress :=
  match p.gathering with
  | none => do
    let g ← firstRow text r row
    .ok ⟨some g, p.out⟩
  | some g =>
    if g.seq = r.eventSeq then do
      let g ← addRow text g r row
      .ok ⟨some g, p.out⟩
    else do
      let next ← firstRow text r row
      .ok ⟨some next, p.out ++ [g.finish]⟩

def decodeBatch (p : Progress) (batch : List Row) : Except ReadError Progress :=
  batch.zipIdx.foldlM (fun p r => decodeRow text p r.1 r.2) p

/-- The event in progress is carried from batch to batch. -/
def decode (batches : List (List Row)) : Except ReadError (List StoredEvent) := do
  let p ← batches.foldlM (decodeBatch text) ⟨none, []⟩
  .ok (p.out ++ (p.gathering.map Gathered.finish).toList)

end Decode

section Steadiness

variable {T S : Type} {text : DecimalText}

/-- What succeeds does not depend on the row's number, which only errors name. -/
def Steady (f : Nat → Except ReadError T) : Prop := ∀ i j a, f i = .ok a → f j = .ok a

theorem bind_ok {x : Except ReadError T} {f : T → Except ReadError S} {b : S}
    (h : x >>= f = .ok b) : ∃ a, x = .ok a ∧ f a = .ok b := by
  cases x with
  | error e => cases h
  | ok a => exact ⟨a, rfl, h⟩

theorem steady_ok (a : T) : Steady (fun _ => .ok a) := fun _ _ _ h => h

theorem steady_error (e : Nat → ReadError) : Steady (fun i => (.error (e i) : Except _ T)) :=
  fun _ _ _ h => by cases h

theorem Steady.bind {f : Nat → Except ReadError T} {g : T → Nat → Except ReadError S}
    (hf : Steady f) (hg : ∀ a, Steady (g a)) : Steady (fun i => f i >>= fun a => g a i) := by
  intro i j b h
  obtain ⟨a, first, rest⟩ := bind_ok h
  dsimp only
  rw [hf i j a first]
  exact hg a i j b rest

theorem Steady.ite {c : Prop} [Decidable c] {f g : Nat → Except ReadError T} (hf : Steady f)
    (hg : Steady g) : Steady (fun i => if c then f i else g i) := by
  intro i j a h
  by_cases holds : c
  · simp only [if_pos holds] at h ⊢
    exact hf i j a h
  · simp only [if_neg holds] at h ⊢
    exact hg i j a h

theorem Steady.mapError {E : Type} (x : Except E T) (e : Nat → E → ReadError) :
    Steady (fun i => x.mapError (e i)) := by
  intro i j a h
  cases x with
  | error _ => cases h
  | ok b => exact h

theorem steady_venue (raw : String) : Steady (parseVenue raw) :=
  .ite (steady_ok _) (.ite (steady_ok _) (.ite (steady_ok _) (.ite (steady_ok _)
    (steady_error _))))

theorem steady_side (raw : String) : Steady (parseSide raw) :=
  .ite (steady_ok _) (.ite (steady_ok _) (steady_error _))

theorem steady_price (raw : Option String) : Steady (parsePrice text raw) := .mapError _ _

theorem steady_qty (raw : Option String) : Steady (parseQty text raw) := .mapError _ _

theorem steady_kind (r : Row) : Steady (emptyKind text r) := by
  refine .ite (steady_ok _) (.ite (steady_ok _) (.ite ?_ (.ite (steady_ok _) (.ite ?_
    (steady_error _)))))
  · cases r.checksum with
    | none => exact steady_error _
    | some value => exact steady_ok _
  · exact (steady_price _).bind fun _ => (steady_qty _).bind fun _ => steady_ok _

theorem steady_begin (r : Row) : Steady (begin text r) :=
  (steady_venue _).bind fun _ => (steady_kind r).bind fun _ => steady_ok _

theorem steady_taker (raw : Option String) : Steady (parseTaker raw) := by
  cases raw with
  | none => exact steady_ok _
  | some raw =>
    intro i j side h
    rw [parseTaker] at h ⊢
    cases parsed : parseSide raw i with
    | error e =>
      rw [parsed] at h
      cases h
    | ok a => rwa [steady_side raw i j a parsed, ← parsed]

theorem steady_trade (r : Row) : Steady (tradeOf text r) := by
  exact .ite (steady_error _) (.ite (steady_error _) ((steady_price _).bind fun _ =>
    (steady_qty _).bind fun _ => (steady_taker _).bind fun _ => steady_ok _))

theorem steady_addRow (g : Gathered) (r : Row) : Steady (addRow text g r) := by
  refine .ite ((steady_trade r).bind fun _ => steady_ok _) ?_
  cases r.side with
  | none => exact steady_ok _
  | some raw =>
    exact (steady_price _).bind fun _ => (steady_qty _).bind fun _ =>
      (steady_side raw).bind fun _ => steady_ok _

theorem steady_firstRow (r : Row) : Steady (firstRow text r) :=
  (steady_begin r).bind fun g => steady_addRow g r

theorem steady_decodeRow (p : Progress) (r : Row) : Steady (decodeRow text p r) := by
  obtain ⟨gathering, out⟩ := p
  cases gathering with
  | none => exact (steady_firstRow r).bind fun _ => steady_ok _
  | some g =>
    exact .ite ((steady_addRow g r).bind fun _ => steady_ok _)
      ((steady_firstRow r).bind fun _ => steady_ok _)

end Steadiness

section Batches

variable {text : DecimalText} {p q : Progress}

/-- Rows one after the other, whatever batches they come in. -/
def decodeRows (text : DecimalText) (p : Progress) (rows : List Row) : Except ReadError Progress :=
  rows.foldlM (fun p r => decodeRow text p r 0) p

theorem decodeRows_append (rows more : List Row) :
    decodeRows text p (rows ++ more) =
      decodeRows text p rows >>= fun q => decodeRows text q more :=
  List.foldlM_append

theorem numbered_ok_iff {batch : List Row} (start : Nat) :
    (batch.zipIdx start).foldlM (fun p r => decodeRow text p r.1 r.2) p = .ok q ↔
      decodeRows text p batch = .ok q := by
  induction batch generalizing p start with
  | nil => exact Iff.rfl
  | cons r batch ih =>
    rw [List.zipIdx_cons, List.foldlM_cons, decodeRows, List.foldlM_cons]
    constructor
    · intro h
      obtain ⟨next, first, rest⟩ := bind_ok h
      rw [steady_decodeRow p r start 0 next first]
      exact (ih (start + 1)).mp rest
    · intro h
      obtain ⟨next, first, rest⟩ := bind_ok h
      rw [steady_decodeRow p r 0 start next first]
      exact (ih (start + 1)).mpr rest

theorem decodeBatch_ok_iff {batch : List Row} :
    decodeBatch text p batch = .ok q ↔ decodeRows text p batch = .ok q :=
  numbered_ok_iff 0

theorem decode_ok_iff {batches : List (List Row)} {out : List StoredEvent} :
    decode text batches = .ok out ↔ ∃ q, decodeRows text ⟨none, []⟩ batches.flatten = .ok q ∧
      out = q.out ++ (q.gathering.map Gathered.finish).toList := by
  have rows : ∀ p q, batches.foldlM (decodeBatch text) p = .ok q ↔
      decodeRows text p batches.flatten = .ok q := by
    induction batches with
    | nil => exact fun _ _ => Iff.rfl
    | cons batch batches ih =>
      intro p q
      rw [List.foldlM_cons, List.flatten_cons, decodeRows_append]
      constructor
      · intro h
        obtain ⟨next, first, rest⟩ := bind_ok h
        rw [decodeBatch_ok_iff.mp first]
        exact (ih next q).mp rest
      · intro h
        obtain ⟨next, first, rest⟩ := bind_ok h
        rw [decodeBatch_ok_iff.mpr first]
        exact (ih next q).mpr rest
  constructor
  · intro h
    obtain ⟨q, folded, done⟩ := bind_ok h
    exact ⟨q, (rows _ q).mp folded, (Except.ok.inj done).symm⟩
  · rintro ⟨q, folded, rfl⟩
    rw [decode, (rows _ q).mpr folded]
    rfl

end Batches

section RoundTrip

variable {text : DecimalText} {event : MarketEvent} {eventSeq : Int} {base : IngestTime}
  {p : Progress}

/-- The decimals that are read for an event. A trade is first read as one of zero. -/
def decimalsOf : EventKind → List Decimal
  | .snapshot bids asks => (bids ++ asks).flatMap (fun l => [l.price.decimal, l.qty.decimal])
  | .delta bids asks => (bids ++ asks).flatMap (fun l => [l.price.decimal, l.qty.decimal])
  | .trade price qty _ => [Decimal.zero, price.decimal, qty.decimal]
  | .checksum _ => []
  | .heartbeat _ => []

/-- The decimals of an event are read back from their digits. -/
def Legible (text : DecimalText) (event : MarketEvent) : Prop :=
  ∀ d ∈ decimalsOf event.kind, text.fromStr d.toString = some d

theorem parsePrice_legible (price : Price) {row : Nat}
    (legible : text.fromStr price.decimal.toString = some price.decimal) :
    parsePrice text (some price.decimal.toString) row = .ok price := by
  simp [parsePrice, Price.parse, DecimalText.read, legible, Except.map, Except.mapError]

theorem parseQty_legible (qty : Qty) {row : Nat}
    (legible : text.fromStr qty.decimal.toString = some qty.decimal) :
    parseQty text (some qty.decimal.toString) row = .ok qty := by
  have accepted : Qty.fromDecimal qty.decimal = .ok qty := by
    rw [Qty.fromDecimal, dif_neg]
    rintro ⟨negative, zero⟩
    rw [qty.nonneg negative] at zero
    cases zero
  simp [parseQty, Qty.parse, DecimalText.read, legible, Except.bind, Except.mapError, accepted]

@[simp] theorem parseVenue_asStr (venue : VenueId) (row : Nat) :
    parseVenue venue.asStr row = .ok venue := by
  cases venue <;> rfl

@[simp] theorem parseSide_sideStr (side : Side) (row : Nat) :
    parseSide (sideStr side) row = .ok side := by
  cases side <;> rfl

/-- The kind of an event before its levels or its trade are read. -/
def blankKind : EventKind → EventKind
  | .snapshot _ _ => .snapshot [] []
  | .delta _ _ => .delta [] []
  | .trade _ _ _ => .trade ⟨Decimal.zero⟩ ⟨Decimal.zero, fun _ => rfl⟩ none
  | .checksum value => .checksum value
  | .heartbeat counter =>
    .heartbeat (counter.map (fun c => UInt64.ofNat (asI64 c.toNat).natAbs))

/-- What is read back of an event, before and after its levels. -/
def storedAs (event : MarketEvent) (base : IngestTime) (kind : EventKind) : StoredEvent where
  stream := ⟨event.venue, event.symbol⟩
  venueTs := event.venueTs.map unixNanos
  ingestWall := unixNanos event.ingestTs.wall
  kind := kind
  elapsed := (asI64 (event.ingestTs.since base)).natAbs

def kindBack : EventKind → EventKind
  | .heartbeat counter =>
    .heartbeat (counter.map (fun c => UInt64.ofNat (asI64 c.toNat).natAbs))
  | kind => kind

/-- What is read back of an event. -/
def readBack (base : IngestTime) (event : MarketEvent) : StoredEvent :=
  storedAs event base (kindBack event.kind)

theorem mem_levelRows {kind : String} {bids asks : List Level} {r : Row}
    (mem : r ∈ levelRows event eventSeq base kind bids asks) :
    r = { template event eventSeq base with kind := kind } ∨
      ∃ side i level, r = levelRow event eventSeq base kind side i level := by
  rw [levelRows] at mem
  split at mem
  · exact .inl (List.mem_singleton.mp mem)
  · rename_i shape
    rw [← shape] at mem
    right
    rcases List.mem_append.mp mem with mem | mem
    · obtain ⟨i, inside, rfl⟩ := List.mem_mapIdx.mp mem
      exact ⟨_, _, _, rfl⟩
    · obtain ⟨i, inside, rfl⟩ := List.mem_mapIdx.mp mem
      exact ⟨_, _, _, rfl⟩

/-- A row carries the columns that all rows of its event share. -/
structure RowOf (event : MarketEvent) (eventSeq : Int) (base : IngestTime) (r : Row) : Prop where
  eventSeq : r.eventSeq = eventSeq
  venue : r.venue = event.venue.asStr
  symbol : r.symbol = event.symbol.text
  ingestWall : r.ingestWall = unixNanos event.ingestTs.wall
  ingestElapsed : r.ingestElapsed = asI64 (event.ingestTs.since base)
  venueTs : r.venueTs = event.venueTs.map unixNanos

theorem begin_rowOf {r : Row} {row : Nat} {kind : EventKind}
    (h : RowOf event eventSeq base r) (empty : emptyKind text r row = .ok kind) :
    begin text r row = .ok ⟨eventSeq, storedAs event base kind, [], []⟩ := by
  rw [begin, h.venue, parseVenue_asStr, empty, h.eventSeq, h.symbol, h.ingestWall,
    h.ingestElapsed, h.venueTs]
  rfl

theorem rowOf_levelRows {kind : String} {bids asks : List Level} {r : Row}
    (mem : r ∈ levelRows event eventSeq base kind bids asks) :
    RowOf event eventSeq base r ∧ r.kind = kind := by
  rcases mem_levelRows mem with rfl | ⟨side, i, level, rfl⟩
  · exact ⟨⟨rfl, rfl, rfl, rfl, rfl, rfl⟩, rfl⟩
  · exact ⟨⟨rfl, rfl, rfl, rfl, rfl, rfl⟩, rfl⟩

theorem rowOf_flatten : ∀ r ∈ flatten event eventSeq base, RowOf event eventSeq base r := by
  intro r mem
  rcases event with ⟨venue, symbol, venueTs, ingestTs, kind⟩
  cases kind with
  | snapshot bids asks => exact (rowOf_levelRows mem).1
  | delta bids asks => exact (rowOf_levelRows mem).1
  | trade price qty takerSide =>
    obtain rfl := List.mem_singleton.mp mem
    exact ⟨rfl, rfl, rfl, rfl, rfl, rfl⟩
  | checksum value =>
    obtain rfl := List.mem_singleton.mp mem
    exact ⟨rfl, rfl, rfl, rfl, rfl, rfl⟩
  | heartbeat counter =>
    obtain rfl := List.mem_singleton.mp mem
    exact ⟨rfl, rfl, rfl, rfl, rfl, rfl⟩

theorem flatten_ne_nil : flatten event eventSeq base ≠ [] := by
  rcases event with ⟨venue, symbol, venueTs, ingestTs, kind⟩
  have levels : ∀ e kind bids asks, levelRows e eventSeq base kind bids asks ≠ [] := by
    intro e kind bids asks
    rw [levelRows]
    split <;> exact List.cons_ne_nil _ _
  cases kind with
  | snapshot bids asks => exact levels _ _ _ _
  | delta bids asks => exact levels _ _ _ _
  | trade price qty takerSide => exact List.cons_ne_nil _ _
  | checksum value => exact List.cons_ne_nil _ _
  | heartbeat counter => exact List.cons_ne_nil _ _

/-- Reading any row of an event starts the same event. -/
theorem begin_flatten (legible : Legible text event) (row : Nat) :
    ∀ r ∈ flatten event eventSeq base,
      begin text r row = .ok ⟨eventSeq, storedAs event base (blankKind event.kind), [], []⟩ := by
  intro r mem
  refine begin_rowOf (rowOf_flatten r mem) ?_
  rcases event with ⟨venue, symbol, venueTs, ingestTs, kind⟩
  cases kind with
  | snapshot bids asks =>
    simp [emptyKind, (rowOf_levelRows mem).2, blankKind]
  | delta bids asks =>
    simp [emptyKind, (rowOf_levelRows mem).2, blankKind, Kind.snapshot, Kind.delta]
  | trade price qty takerSide =>
    obtain rfl := List.mem_singleton.mp mem
    have zero : text.fromStr "0" = some Decimal.zero := legible Decimal.zero (by simp [decimalsOf])
    have price : parsePrice text (some "0") row = .ok ⟨Decimal.zero⟩ :=
      parsePrice_legible ⟨Decimal.zero⟩ zero
    have qty : parseQty text (some "0") row = .ok ⟨Decimal.zero, fun _ => rfl⟩ :=
      parseQty_legible ⟨Decimal.zero, fun _ => rfl⟩ zero
    simp [emptyKind, blankKind, Kind.snapshot, Kind.delta, Kind.checksum, Kind.heartbeat,
      Kind.trade, price, qty]
    rfl
  | checksum value =>
    obtain rfl := List.mem_singleton.mp mem
    simp [emptyKind, blankKind, Kind.snapshot, Kind.delta, Kind.checksum]
  | heartbeat counter =>
    obtain rfl := List.mem_singleton.mp mem
    cases counter <;>
      simp [emptyKind, blankKind, Kind.snapshot, Kind.delta, Kind.checksum, Kind.heartbeat]

theorem addRow_levelRow {g : Gathered} {kind : String} {side : Side} {i row : Nat} {level : Level}
    (book : kind ≠ Kind.trade)
    (price : text.fromStr level.price.decimal.toString = some level.price.decimal)
    (qty : text.fromStr level.qty.decimal.toString = some level.qty.decimal) :
    addRow text g (levelRow event eventSeq base kind side i level) row =
      .ok (g.push side level) := by
  simp [addRow, levelRow, book, parsePrice_legible _ price, parseQty_legible _ qty]
  rfl

def Gathered.pushAll (g : Gathered) (side : Side) (levels : List Level) : Gathered :=
  levels.foldl (fun g level => g.push side level) g

theorem Gathered.push_seq (g : Gathered) (side : Side) (level : Level) :
    (g.push side level).seq = g.seq := by
  cases side <;> rfl

theorem Gathered.pushAll_bid (g : Gathered) (levels : List Level) :
    g.pushAll .bid levels = { g with bids := g.bids ++ levels } := by
  induction levels generalizing g with
  | nil => simp [pushAll]
  | cons level levels ih => simpa [pushAll, push] using ih (g.push .bid level)

theorem Gathered.pushAll_ask (g : Gathered) (levels : List Level) :
    g.pushAll .ask levels = { g with asks := g.asks ++ levels } := by
  induction levels generalizing g with
  | nil => simp [pushAll]
  | cons level levels ih => simpa [pushAll, push] using ih (g.push .ask level)

/-- Rows that each add a level add all levels in their order. -/
theorem decodeRows_mapIdx {g : Gathered} {out : List StoredEvent} {side : Side}
    {levels : List Level} {f : Nat → Level → Row} (seq : g.seq = eventSeq)
    (adds : ∀ i, ∀ level ∈ levels, ∀ g : Gathered, g.seq = eventSeq →
      decodeRow text ⟨some g, out⟩ (f i level) 0 = .ok ⟨some (g.push side level), out⟩) :
    decodeRows text ⟨some g, out⟩ (levels.mapIdx f) = .ok ⟨some (g.pushAll side levels), out⟩ := by
  induction levels generalizing f g with
  | nil => rfl
  | cons level levels ih =>
    have first := adds 0 level List.mem_cons_self g seq
    have rest := ih (g := g.push side level) (f := fun i => f (i + 1))
      ((g.push_seq side level).trans seq)
      (fun i other mem => adds (i + 1) other (List.mem_cons_of_mem _ mem))
    rw [List.mapIdx_cons, decodeRows, List.foldlM_cons, first]
    exact rest

/-- The level rows of one side, into an event that is being gathered. -/
theorem decodeRows_side {g : Gathered} {out : List StoredEvent} {kind : String} {side : Side}
    {levels : List Level} (book : kind ≠ Kind.trade) (seq : g.seq = eventSeq)
    (legible : ∀ level ∈ levels,
      text.fromStr level.price.decimal.toString = some level.price.decimal ∧
        text.fromStr level.qty.decimal.toString = some level.qty.decimal) :
    decodeRows text ⟨some g, out⟩ (levels.mapIdx (levelRow event eventSeq base kind side)) =
      .ok ⟨some (g.pushAll side levels), out⟩ := by
  refine decodeRows_mapIdx seq fun i level mem g own => ?_
  obtain ⟨price, qty⟩ := legible level mem
  rw [decodeRow]
  dsimp only
  rw [if_pos (by rw [own]; rfl), addRow_levelRow book price qty]
  rfl

/-- A row without a side adds nothing to its event. -/
theorem decodeRows_plain {g : Gathered} {out : List StoredEvent} {r : Row}
    (book : r.kind ≠ Kind.trade) (bare : r.side = none) (seq : g.seq = r.eventSeq) :
    decodeRows text ⟨some g, out⟩ [r] = .ok ⟨some g, out⟩ := by
  rw [decodeRows, List.foldlM_cons, decodeRow]
  dsimp only
  rw [if_pos seq, addRow, if_neg book, bare]
  rfl

theorem decodeRows_levelRows {g : Gathered} {out : List StoredEvent} {kind : String}
    {bids asks : List Level} (book : kind ≠ Kind.trade) (seq : g.seq = eventSeq)
    (legible : ∀ level ∈ bids ++ asks,
      text.fromStr level.price.decimal.toString = some level.price.decimal ∧
        text.fromStr level.qty.decimal.toString = some level.qty.decimal) :
    decodeRows text ⟨some g, out⟩ (levelRows event eventSeq base kind bids asks) =
      .ok ⟨some { g with bids := g.bids ++ bids, asks := g.asks ++ asks }, out⟩ := by
  have sides : decodeRows text ⟨some g, out⟩
      (bids.mapIdx (levelRow event eventSeq base kind .bid) ++
        asks.mapIdx (levelRow event eventSeq base kind .ask)) =
        .ok ⟨some { g with bids := g.bids ++ bids, asks := g.asks ++ asks }, out⟩ := by
    rw [decodeRows_append, decodeRows_side book seq fun level mem =>
      legible level (List.mem_append_left _ mem), g.pushAll_bid]
    have last : decodeRows text ⟨some { g with bids := g.bids ++ bids }, out⟩
        (asks.mapIdx (levelRow event eventSeq base kind .ask)) =
          .ok ⟨some (Gathered.pushAll { g with bids := g.bids ++ bids } .ask asks), out⟩ :=
      decodeRows_side book seq fun level mem => legible level (List.mem_append_right _ mem)
    exact last.trans (by rw [Gathered.pushAll_ask])
  rw [levelRows]
  split
  · rename_i empty
    obtain ⟨noBids, noAsks⟩ := List.append_eq_nil_iff.mp empty
    obtain rfl := List.mapIdx_eq_nil_iff.mp noBids
    obtain rfl := List.mapIdx_eq_nil_iff.mp noAsks
    rw [List.append_nil, List.append_nil]
    exact decodeRows_plain book rfl seq
  · rename_i shape
    rw [← shape]
    exact sides

variable (eventSeq base) in
/-- All rows of an event whose gathering has started. -/
theorem decodeRows_gathering (out : List StoredEvent) (legible : Legible text event) :
    ∃ g, decodeRows text ⟨some ⟨eventSeq, storedAs event base (blankKind event.kind), [], []⟩, out⟩
        (flatten event eventSeq base) = .ok ⟨some g, out⟩ ∧
      g.seq = eventSeq ∧ g.finish = readBack base event := by
  have sides : ∀ levels : List Level,
      (∀ d ∈ levels.flatMap (fun l => [l.price.decimal, l.qty.decimal]),
        text.fromStr d.toString = some d) → ∀ level ∈ levels,
        text.fromStr level.price.decimal.toString = some level.price.decimal ∧
          text.fromStr level.qty.decimal.toString = some level.qty.decimal := by
    intro levels read level mem
    constructor
    · exact read _ (List.mem_flatMap.mpr ⟨level, mem, by simp⟩)
    · exact read _ (List.mem_flatMap.mpr ⟨level, mem, by simp⟩)
  rcases event with ⟨venue, symbol, venueTs, ingestTs, kind⟩
  cases kind with
  | snapshot bids asks =>
    exact ⟨_, decodeRows_levelRows (by decide) rfl (sides _ legible), rfl, rfl⟩
  | delta bids asks =>
    exact ⟨_, decodeRows_levelRows (by decide) rfl (sides _ legible), rfl, rfl⟩
  | trade price qty takerSide =>
    have priced : parsePrice text (some price.decimal.toString) 0 = .ok price :=
      parsePrice_legible price (legible _ (by simp [decimalsOf]))
    have counted : parseQty text (some qty.decimal.toString) 0 = .ok qty :=
      parseQty_legible qty (legible _ (by simp [decimalsOf]))
    have taken : parseTaker (takerSide.map sideStr) 0 = .ok takerSide := by
      cases takerSide with
      | none => rfl
      | some side => rw [Option.map_some, parseTaker, parseSide_sideStr]; rfl
    refine ⟨⟨eventSeq, storedAs _ base (.trade price qty takerSide), [], []⟩, ?_, rfl, rfl⟩
    simp [flatten, decodeRows, decodeRow, addRow, tradeOf, template, priced, counted, taken]
    rfl
  | checksum value =>
    have book : Kind.checksum ≠ Kind.trade := by decide
    exact ⟨⟨eventSeq, storedAs _ base (.checksum value), [], []⟩,
      decodeRows_plain book rfl rfl, rfl, rfl⟩
  | heartbeat counter =>
    have book : Kind.heartbeat ≠ Kind.trade := by decide
    exact ⟨⟨eventSeq, storedAs _ base (blankKind (.heartbeat counter)), [], []⟩,
      decodeRows_plain book rfl rfl, rfl, rfl⟩

variable (base) in
/-- The rows of an event, after rows of other events. -/
theorem decodeRows_flatten (legible : Legible text event)
    (fresh : ∀ g ∈ p.gathering, g.seq ≠ eventSeq) :
    ∃ g, decodeRows text p (flatten event eventSeq base) =
        .ok ⟨some g, p.out ++ (p.gathering.map Gathered.finish).toList⟩ ∧
      g.seq = eventSeq ∧ g.finish = readBack base event := by
  obtain ⟨g, run, own, done⟩ := decodeRows_gathering eventSeq base
    (p.out ++ (p.gathering.map Gathered.finish).toList) legible
  refine ⟨g, ?_, own, done⟩
  rw [← run]
  cases rows : flatten event eventSeq base with
  | nil => exact absurd rows flatten_ne_nil
  | cons r rest =>
    have mem : r ∈ flatten event eventSeq base := rows ▸ List.mem_cons_self
    have seq := (rowOf_flatten r mem).eventSeq
    have first : decodeRow text p r 0 = decodeRow text
        ⟨some ⟨eventSeq, storedAs event base (blankKind event.kind), [], []⟩,
          p.out ++ (p.gathering.map Gathered.finish).toList⟩ r 0 := by
      have started : firstRow text r 0 = addRow text
          ⟨eventSeq, storedAs event base (blankKind event.kind), [], []⟩ r 0 := by
        rw [firstRow, begin_flatten legible 0 r mem]
        rfl
      obtain ⟨gathering, out⟩ := p
      cases gathering with
      | none =>
        simp only [decodeRow, started, seq, if_pos, Option.map_none, Option.toList_none,
          List.append_nil]
      | some before =>
        have other : before.seq ≠ eventSeq := fresh before rfl
        simp only [decodeRow, started, seq, if_pos, if_neg other, Option.map_some,
          Option.toList_some]
    rw [decodeRows, decodeRows, List.foldlM_cons, List.foldlM_cons, first]

/-- Events with the numbers they were appended under. -/
def rowsOf (base : IngestTime) (log : List (Int × MarketEvent)) : List Row :=
  log.flatMap (fun e => flatten e.2 e.1 base)

/-- What a reader has of a file so far, the event in progress included. -/
def Progress.soFar (p : Progress) : List StoredEvent :=
  p.out ++ (p.gathering.map Gathered.finish).toList

variable (base) in
theorem decodeRows_rowsOf {log : List (Int × MarketEvent)}
    (legible : ∀ e ∈ log, Legible text e.2) (increasing : (log.map Prod.fst).Pairwise (· < ·))
    (later : ∀ g ∈ p.gathering, ∀ n ∈ log.map Prod.fst, g.seq < n) :
    ∃ q, decodeRows text p (rowsOf base log) = .ok q ∧
      q.soFar = p.soFar ++ log.map (fun e => readBack base e.2) := by
  induction log generalizing p with
  | nil => exact ⟨p, rfl, (List.append_nil _).symm⟩
  | cons e log ih =>
    obtain ⟨first, rest⟩ := List.pairwise_cons.mp increasing
    obtain ⟨g, run, own, done⟩ := decodeRows_flatten (p := p) base
      (legible e List.mem_cons_self) fun g mem => Int.ne_of_lt (later g mem e.1 List.mem_cons_self)
    obtain ⟨q, runs, all⟩ := ih (p := ⟨some g, p.soFar⟩)
      (fun d mem => legible d (List.mem_cons_of_mem _ mem)) rest (by
        intro h same n mem
        obtain rfl := Option.some.inj same
        exact own ▸ first n mem)
    refine ⟨q, ?_, ?_⟩
    · rw [rowsOf, List.flatMap_cons, decodeRows_append, run]
      exact runs
    · rw [all, Progress.soFar, Option.map_some, Option.toList_some, done, List.append_assoc]
      rfl

/-- A file of numbered events reads back as those events, whatever its batches. -/
theorem decode_rowsOf {batches : List (List Row)} {log : List (Int × MarketEvent)}
    (rows : batches.flatten = rowsOf base log) (legible : ∀ e ∈ log, Legible text e.2)
    (increasing : (log.map Prod.fst).Pairwise (· < ·)) :
    decode text batches = .ok (log.map (fun e => readBack base e.2)) := by
  obtain ⟨q, run, all⟩ := decodeRows_rowsOf (p := ⟨none, []⟩) base legible increasing
    (fun g mem => by cases mem)
  exact decode_ok_iff.mpr ⟨q, rows ▸ run, all.symm⟩

end RoundTrip

end ArchiveRows
