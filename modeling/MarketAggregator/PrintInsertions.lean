import MarketAggregator.BitstampFeed
import MarketAggregator.CoinbaseFeed
import MarketAggregator.KrakenFeed

/-!
# Prints between the frames of a book

Two runs of one book are compared: on the frames alone, and on the frames with prints put
in between. Kraken and Bitstamp keep nothing that a print could move. Coinbase numbers the
messages of a connection over all channels, so a print takes a number, and every later
number moves up by one.
-/

namespace PrintInsertions

open Clocks Decimals MarketEvents OrderBook VenueBooks

universe u v

/-- A frame of the original sequence, or one put in between. -/
inductive Fed where
  | original (frame : RawFrame)
  | inserted (frame : RawFrame)

section Passes

variable {σ : Type u} (v : VenueSync σ) (arith : DecimalArith)

/-- The book after each original frame. -/
def passes : VenueBook σ → List Fed → List Book
  | _, [] => []
  | vb, .original frame :: rest =>
    let next := (vb.feed v arith frame).2
    next.book :: passes next rest
  | vb, .inserted frame :: rest => passes (vb.feed v arith frame).2 rest

variable {v arith} {vb : VenueBook σ} {frame : RawFrame}

end Passes

section Kraken

open KrakenFeed

variable (w : KrakenWire)

end Kraken

section Bitstamp

open BitstampFeed

variable {J : Type u} (w : BitstampWire J)

end Bitstamp

section Numbers

/-- The state without the numbers that a gap is named by. -/
def unnumbered : BookState → BookState
  | .desynced since (.sequenceGap _ _) => .desynced since (.sequenceGap 0 0)
  | state => state

/-- The book without the numbers that a gap is named by. -/
def forget (b : Book) : Book := { b with state := unnumbered b.state }

variable {b c : Book} {hash : Levels → Option UInt32} {integrity : Integrity} {now : IngestTime}

theorem unnumbered_isLive (state : BookState) : (unnumbered state).isLive = state.isLive := by
  cases state with
  | desynced since reason => cases reason <;> rfl
  | _ => rfl

theorem unnumbered_live {state : BookState} (live : state.isLive = true) :
    unnumbered state = state := by
  cases state with
  | live integrity since lastVerified => rfl
  | _ => cases live

/-- Books that differ in numbers at most become equal when their states do. -/
theorem forget_restate (alike : forget b = forget c) (state : BookState) :
    { b with state := state } = { c with state := state } :=
  congrArg (fun book : Book => { book with state := state }) alike

theorem forget_isLive (alike : forget b = forget c) : b.state.isLive = c.state.isLive := by
  have states := congrArg (fun book : Book => book.state.isLive) alike
  simpa [forget, unnumbered_isLive] using states

/-- A live book has no numbers to forget. -/
theorem forget_live (alike : forget b = forget c) (live : b.state.isLive = true) : b = c := by
  have live' : c.state.isLive = true := (forget_isLive alike).symm.trans live
  have plain : forget b = b := by rw [forget, unnumbered_live live]
  have plain' : forget c = c := by rw [forget, unnumbered_live live']
  rw [← plain, alike, plain']

theorem forget_markDesynced (alike : forget b = forget c) {reason other : DesyncReason}
    (same : unnumbered (.desynced now reason) = unnumbered (.desynced now other)) :
    forget (b.markDesynced reason now) = forget (c.markDesynced other now) := by
  have states := forget_restate alike (unnumbered (.desynced now reason))
  rw [forget, Book.markDesynced, forget, Book.markDesynced, ← same]
  exact states

/-- No action reads the numbers of a gap. -/
theorem forget_applyAction (alike : forget b = forget c) (action : SyncAction) :
    forget (applyAction hash integrity now b action).1 =
      forget (applyAction hash integrity now c action).1 := by
  by_cases live : b.state.isLive = true
  · rw [forget_live alike live]
  · have down : b.state.isLive = false := by simpa using live
    have down' : c.state.isLive = false := (forget_isLive alike).symm.trans down
    cases action with
    | ignore => exact alike
    | forward kind => exact alike
    | desync reason => exact forget_markDesynced alike rfl
    | verify checksum => simpa [applyAction, verify, down, down'] using alike
    | delta bids asks => simpa [applyDelta_down down, applyDelta_down down'] using alike
    | snapshot bids asks =>
      have blank : ∀ book : Book, (book.applySnapshot bids asks integrity now).2 =
        ({ book with state := .uninitialized }.applySnapshot bids asks integrity now).2 :=
        fun _ => rfl
      simp only [applyAction]
      rw [blank b, blank c, forget_restate alike]

theorem forget_applyActions (alike : forget b = forget c) (actions : List SyncAction) :
    forget (applyActions hash integrity now b actions).1 =
      forget (applyActions hash integrity now c actions).1 := by
  induction actions generalizing b c with
  | nil => exact alike
  | cons action actions ih =>
    rw [applyActions_cons, applyActions_cons]
    exact ih (forget_applyAction alike action)

end Numbers

section Coinbase

open CoinbaseFeed CoinbaseSync

variable {J : Type u} (w : CoinbaseWire J)

/-- The number that a frame takes, if it is a message of the connection at all. -/
def numberOf (frame : RawFrame) : Option UInt64 :=
  match frame.source with
  | .webSocket => (w.envelope frame.payload).toOption.map Envelope.sequenceNum
  | _ => none

/-- The same frame with its number moved up. -/
structure Renumbered (up : UInt64) (frame moved : RawFrame) : Prop where
  stream : moved.stream = frame.stream
  ingestTs : moved.ingestTs = frame.ingestTs
  source : moved.source = frame.source
  payload : frame.source ≠ .webSocket → moved.payload = frame.payload
  envelope : frame.source = .webSocket → w.envelope moved.payload =
    (w.envelope frame.payload).map (fun env => { env with sequenceNum := env.sequenceNum + up })

/-- Frames with prints in between. A print is a message of the trade channel whose events may
be anything. It takes the number that comes `next`, or before the first number of the
connection the one that the first frame gives up, and `up` counts the prints so far. -/
inductive Merged : Option UInt64 → UInt64 → List RawFrame → List Fed → Prop
  | nil (next : Option UInt64) (up : UInt64) : Merged next up [] []
  | original (next : Option UInt64) (up : UInt64) (frame moved : RawFrame)
    (frames : List RawFrame) (items : List Fed) (renumbered : Renumbered w up frame moved)
    (rest : Merged (((numberOf w moved).map (· + 1)).or next) up frames items) :
    Merged next up (frame :: frames) (.original moved :: items)
  | inserted (next : Option UInt64) (up : UInt64) (print : RawFrame) (env : Envelope J)
    (frames : List RawFrame) (items : List Fed) (socket : print.source = .webSocket)
    (read : w.envelope print.payload = .ok env) (channel : env.channel = "market_trades")
    (consecutive : ∀ number ∈ next, env.sequenceNum = number)
    (opening : next = none → ∀ number ∈ (frames.filterMap (numberOf w)).head?,
      env.sequenceNum = number + up)
    (rest : Merged (some (env.sequenceNum + 1)) (up + 1) frames items) :
    Merged next up frames (.inserted print :: items)

variable {w} {arith : DecimalArith} {vb vc : VenueBook CoinbaseSync} {frame moved : RawFrame}
  {env : Envelope J} {s r : CoinbaseSync}

/-- What the book is told by a message: a gap, or what its channel says, if it can be read. -/
def told (w : CoinbaseWire J) (s : CoinbaseSync) (env : Envelope J) : List SyncAction :=
  match (s.checkSeq env.sequenceNum).1 with
  | some reason => [.desync reason]
  | none => match (s.checkSeq env.sequenceNum).2.channelActions w env with
    | .error _ => []
    | .ok actions => actions

theorem feed_message (socket : frame.source = .webSocket)
    (read : w.envelope frame.payload = .ok env) : (vb.feed (sync w) arith frame).2 =
      { vb with
        sync := (vb.sync.checkSeq env.sequenceNum).2
        book := (applyActions (fun _ => none) .gapDetectable frame.ingestTs vb.book
          (told w vb.sync env)).1 } := by
  simp only [VenueBook.feed, socket, sync, ingest, read, told]
  cases (vb.sync.checkSeq env.sequenceNum).1 with
  | some reason => rfl
  | none => cases (vb.sync.checkSeq env.sequenceNum).2.channelActions w env <;> rfl

theorem feed_unreadable {e : String} (socket : frame.source = .webSocket)
    (read : w.envelope frame.payload = .error e) : (vb.feed (sync w) arith frame).2 = vb := by
  simp [VenueBook.feed, socket, sync, ingest, read]

theorem ownTrades_congr (h : r.productId = s.productId) (trades : List WireTrade) :
    r.ownTrades w trades = s.ownTrades w trades := by
  induction trades with
  | nil => rfl
  | cons trade trades ih => simp only [ownTrades, ih, h]

theorem trades_congr (h : r.productId = s.productId) (events : List J) :
    r.trades w events = s.trades w events := by
  induction events with
  | nil => rfl
  | cons raw events ih => simp only [CoinbaseSync.trades, ih, ownTrades_congr h]

/-- A channel is read with the product only, and without the number. -/
theorem channelActions_congr (h : r.productId = s.productId) (number : UInt64) :
    r.channelActions w { env with sequenceNum := number } = s.channelActions w env := by
  simp only [channelActions, bookEvents_congr h, trades_congr h]

/-- The second book has been fed prints as well, and expects a number moved up by their
count. -/
structure Beside (w : CoinbaseWire J) (next : Option UInt64) (up : UInt64)
    (frames : List RawFrame) (vb vc : VenueBook CoinbaseSync) : Prop where
  book : forget vb.book = forget vc.book
  policy : vc.auditPolicy = vb.auditPolicy
  trail : vc.auditTrail = vb.auditTrail
  product : vc.sync.productId = vb.sync.productId
  expects : vc.sync.expectedSeq = next
  aligned : ∀ expected, vb.sync.expectedSeq = some expected → next = some (expected + up)
  opening : vb.sync.expectedSeq = none → ∀ number, next = some number →
    ∀ first ∈ (frames.filterMap (numberOf w)).head?, number = first + up

variable {next : Option UInt64} {up : UInt64} {frames : List RawFrame}

/-- Both runs are told the same of a frame, except for the numbers of a gap. -/
theorem told_beside (h : Beside w next up (frame :: frames) vb vc)
    (number : numberOf w frame = some env.sequenceNum) :
    told w vb.sync env =
        told w vc.sync { env with sequenceNum := env.sequenceNum + up } ∨
      ∃ a b c d, told w vb.sync env = [.desync (.sequenceGap a b)] ∧
        told w vc.sync { env with sequenceNum := env.sequenceNum + up } =
          [.desync (.sequenceGap c d)] := by
  have same : (vc.sync.checkSeq (env.sequenceNum + up)).2.productId =
      (vb.sync.checkSeq env.sequenceNum).2.productId := by
    rw [checkSeq_product, checkSeq_product, h.product]
  have aligned : (vb.sync.checkSeq env.sequenceNum).1 = none ↔
      (vc.sync.checkSeq (env.sequenceNum + up)).1 = none := by
    rw [checkSeq_none, checkSeq_none, h.expects]
    cases expects : vb.sync.expectedSeq with
    | none =>
      have opening := h.opening expects
      simp only [List.filterMap_cons, number, List.head?_cons, Option.mem_some_iff,
        forall_eq'] at opening
      simp only [Option.mem_def, reduceCtorEq, false_implies, implies_true, true_iff]
      intro expected known
      exact (opening expected known).symm
    | some expected =>
      rw [h.aligned expected expects]
      simp
  simp only [told]
  cases first : (vb.sync.checkSeq env.sequenceNum).1 with
  | none =>
    rw [aligned.mp first]
    simp only [channelActions_congr same]
    exact .inl trivial
  | some reason =>
    cases second : (vc.sync.checkSeq (env.sequenceNum + up)).1 with
    | none =>
      rw [aligned.mpr second] at first
      cases first
    | some other =>
      obtain ⟨a, rfl⟩ := checkSeq_gap first
      obtain ⟨c, rfl⟩ := checkSeq_gap second
      exact .inr ⟨_, _, _, _, rfl, rfl⟩

theorem forget_told (h : Beside w next up (frame :: frames) vb vc)
    (number : numberOf w frame = some env.sequenceNum) (now : IngestTime) :
    forget (applyActions (fun _ => none) .gapDetectable now vb.book (told w vb.sync env)).1 =
      forget (applyActions (fun _ => none) .gapDetectable now vc.book
        (told w vc.sync { env with sequenceNum := env.sequenceNum + up })).1 := by
  rcases told_beside h number with same | ⟨a, b, c, d, first, second⟩
  · rw [← same]
    exact forget_applyActions h.book _
  · rw [first, second]
    exact forget_markDesynced h.book rfl

theorem Beside.skipped (h : Beside w next up (frame :: frames) vb vc)
    (number : numberOf w frame = none) : Beside w next up frames vb vc := by
  have opening := h.opening
  rw [List.filterMap_cons_none number] at opening
  exact { h with opening := opening }

/-- No REST book is spliced. -/
theorem feed_restSnapshot (source : frame.source = .restSnapshot) :
    (vb.feed (sync w) arith frame).2 = vb := by
  rw [VenueBook.feed, source]
  cases parsed : frame.asStr.bind ((sync w).parseRestSnapshot vb.sync) <;> rfl

/-- A live book is audited, and it is the same in both runs. -/
theorem Beside.audited (h : Beside w next up (frame :: frames) vb vc)
    (number : numberOf w frame = none) (snapshot : RestSnapshot) (now : IngestTime) :
    Beside w next up frames (vb.audit arith snapshot now).2 (vc.audit arith snapshot now).2 := by
  have live' := forget_isLive h.book
  by_cases live : vb.book.state.isLive = true
  · have same := forget_live h.book live
    simp only [VenueBook.audit, ← live', live, if_true]
    rw [← same, h.policy, h.trail]
    exact ⟨rfl, rfl, rfl, h.product, h.expects, h.aligned, (h.skipped number).opening⟩
  · simp only [VenueBook.audit, ← live', live]
    exact h.skipped number

theorem Beside.original (h : Beside w next up (frame :: frames) vb vc)
    (renumbered : Renumbered w up frame moved) :
    Beside w (((numberOf w moved).map (· + 1)).or next) up frames
      (vb.feed (sync w) arith frame).2 (vc.feed (sync w) arith moved).2 := by
  cases source : frame.source with
  | webSocket =>
    have socket : moved.source = .webSocket := renumbered.source.trans source
    have envelope := renumbered.envelope source
    cases read : w.envelope frame.payload with
    | error e =>
      rw [read] at envelope
      have number : numberOf w frame = none := by simp [numberOf, source, read, Except.toOption]
      have number' : numberOf w moved = none := by
        simp [numberOf, socket, envelope, Except.map, Except.toOption]
      rw [feed_unreadable source read, feed_unreadable socket envelope, number']
      exact h.skipped number
    | ok env =>
      rw [read] at envelope
      have number : numberOf w frame = some env.sequenceNum := by
        simp [numberOf, source, read, Except.toOption]
      have number' : numberOf w moved = some (env.sequenceNum + up) := by
        simp [numberOf, socket, envelope, Except.map, Except.toOption]
      rw [feed_message source read, feed_message socket envelope, number']
      constructor
      · rw [renumbered.ingestTs]
        exact forget_told h number frame.ingestTs
      · exact h.policy
      · exact h.trail
      · simpa using h.product
      · simp
      · intro expected known
        have last : env.sequenceNum + 1 = expected := by simpa using known
        rw [← last, Option.map_some, Option.some_or, UInt64.add_assoc,
          UInt64.add_assoc, UInt64.add_comm up]
      · intro none
        simp at none
  | restSnapshot =>
    have source' : moved.source = .restSnapshot := renumbered.source.trans source
    have number : numberOf w frame = none := by simp [numberOf, source]
    have number' : numberOf w moved = none := by simp [numberOf, source']
    rw [feed_restSnapshot source, feed_restSnapshot source', number']
    exact h.skipped number
  | restAudit =>
    have source' : moved.source = .restAudit := renumbered.source.trans source
    have number : numberOf w frame = none := by simp [numberOf, source]
    have number' : numberOf w moved = none := by simp [numberOf, source']
    have text : moved.asStr = frame.asStr := by
      rw [RawFrame.asStr, renumbered.payload (by simp [source]), RawFrame.asStr]
    rw [VenueBook.feed, VenueBook.feed, source, source', number', text, renumbered.ingestTs]
    cases parsed : frame.asStr.bind ((sync w).parseRestSnapshot vb.sync) with
    | error e =>
      have parsed' : frame.asStr.bind ((sync w).parseRestSnapshot vc.sync) = .error e := parsed
      simp only [parsed']
      exact h.skipped number
    | ok snapshot =>
      have parsed' : frame.asStr.bind ((sync w).parseRestSnapshot vc.sync) = .ok snapshot := parsed
      simp only [parsed']
      exact h.audited number snapshot frame.ingestTs

theorem Beside.inserted (h : Beside w next up frames vb vc) (socket : moved.source = .webSocket)
    (read : w.envelope moved.payload = .ok env) (channel : env.channel = "market_trades")
    (consecutive : ∀ number ∈ next, env.sequenceNum = number)
    (opening : next = none → ∀ number ∈ (frames.filterMap (numberOf w)).head?,
      env.sequenceNum = number + up) :
    Beside w (some (env.sequenceNum + 1)) (up + 1) frames vb (vc.feed (sync w) arith moved).2 := by
  have accepted : (vc.sync.checkSeq env.sequenceNum).1 = none := by
    rw [checkSeq_none, h.expects]
    exact consecutive
  have passive : ∀ a ∈ told w vc.sync env, a.isPassive = true := by
    intro a mem
    simp only [told, accepted] at mem
    split at mem
    · cases mem
    · rename_i actions parsed
      exact channelActions_passive (by rw [channel]; decide) parsed a mem
  rw [feed_message socket read, applyActions_passive passive]
  constructor
  · exact h.book
  · exact h.policy
  · exact h.trail
  · simpa using h.product
  · simp
  · intro expected known
    have same := consecutive _ (h.aligned expected known)
    rw [same, UInt64.add_assoc]
  · intro fresh number known first mem
    obtain rfl := Option.some.inj known
    have same : env.sequenceNum = first + up := by
      cases expects : next with
      | none => exact opening expects first mem
      | some number =>
        rw [consecutive number expects]
        exact h.opening fresh number expects first mem
    rw [same, UInt64.add_assoc]

end Coinbase

section Sample

open CoinbaseFeed CoinbaseSync VenueStreams

/-- A snapshot, an update under two numbers, and a message of the trade channel. -/
def sampleWire : CoinbaseWire String :=
  tableWire
    [("snapshot", ⟨"l2_data", 0, none, ["levels"]⟩), ("update", ⟨"l2_data", 1, none, ["level"]⟩),
      ("later update", ⟨"l2_data", 2, none, ["level"]⟩),
      ("print", ⟨"market_trades", 1, none, ["prints"]⟩)]
    [("levels", ⟨.snapshot, "BTC-USD", [⟨.bid, "100", "1"⟩]⟩),
      ("level", ⟨.update, "BTC-USD", [⟨.bid, "99", "2"⟩]⟩)]

def sampleFrame (text : String) : RawFrame :=
  ⟨⟨.coinbase, ⟨"BTC-USD"⟩⟩, .text text, ⟨0, 0⟩, .webSocket⟩

def sampleBook : VenueBook CoinbaseSync :=
  VenueBook.new (sync sampleWire) (CoinbaseSync.new "BTC-USD") ⟨"BTC-USD"⟩

end Sample

end PrintInsertions
