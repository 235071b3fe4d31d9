import MarketAggregator.AggregatorApply
import MarketAggregator.CoinbaseCompleteness
import MarketAggregator.IngestChannel

/-!
# Session boundaries in a lossy channel

One ingest task sends the frames of successive Coinbase sessions and the ends of
the sessions into a channel that drops its oldest item. A boundary can be dropped
like any frame. What keeps the sessions apart is then only the sequence numbers,
which every session counts from zero.
-/

namespace SessionMixing

open AggregatorApply Clocks CoinbaseCompleteness CoinbaseFeed CoinbaseSync Decimals GuardedRuns
  IngestChannel MarketEvents OrderBook OrderedMaps TrustedReplay VenueBooks VenueStreams WireLevels

universe u v

/-- A frame of the stream that the venue numbered `n` and that parses. -/
structure WellFormed {J : Type u} (w : CoinbaseWire J) (productId : String) (stream : StreamId)
    (n : Nat) (frame : RawFrame) : Prop where
  source : frame.source = .webSocket
  stream : frame.stream = stream
  parses : ∃ env actions, w.envelope frame.payload = .ok env ∧
    env.sequenceNum = UInt64.ofNat n ∧
    (CoinbaseSync.new productId).channelActions w env = .ok actions

/-- The frames of one connection, numbered from zero and opening with a snapshot. -/
structure Session {J : Type u} (w : CoinbaseWire J) (productId : String) (stream : StreamId) where
  frames : List RawFrame
  wellFormed : ∀ n frame, frames[n]? = some frame → WellFormed w productId stream n frame
  opens : ∀ frame, frames[0]? = some frame →
    ∃ events bids asks, frameEvents w productId frame = .ok events ∧
      .snapshot bids asks ∈ events

section Line

variable {J : Type u} {w : CoinbaseWire J} {productId : String} {stream : StreamId}
  (arith : DecimalArith) {ω : Type v} (ops : WindowOps ω)
  (sessions : Nat → Session w productId stream)

/-- A message in the channel: a frame of a session, or the end of one. -/
inductive Origin where
  | frame (session : Nat) (number : Fin (sessions session).frames.length)
  | ended (session : Nat) (now : IngestTime) (ending : SessionEnd)

def Origin.message : Origin sessions → IngestMessage
  | .frame session number => .frame ((sessions session).frames.get number)
  | .ended _ now ending => .sessionEnded stream now ending

/-- The task, the channel and the aggregator, with the last frame received. -/
structure Line (ω : Type v) where
  channel : Channel (Origin sessions)
  agg : Aggregator CoinbaseSync ω
  session : Nat
  sent : Nat
  last : Option (Nat × Nat)

inductive Action where
  | send
  | endSession (now : IngestTime) (ending : SessionEnd)
  | receive

variable (w productId stream) in
def startAggregator (depth : Option Nat) (windows : ω) (now : IngestTime) (sink : Bool) :
    Aggregator CoinbaseSync ω where
  streams := OrderedMap.empty.insert stream
    (VenueState.new (sync w) (CoinbaseSync.new productId) stream.symbol depth windows now)
  sink := sink

def start (capacity : Nat) (positive : 0 < capacity) (depth : Option Nat) (windows : ω)
    (now : IngestTime) (sink : Bool) : Line sessions ω where
  channel := Channel.bounded capacity positive
  agg := startAggregator w productId stream depth windows now sink
  session := 0
  sent := 0
  last := none

def received (l : Line sessions ω) (origin : Origin sessions) : Line sessions ω :=
  { l with
    agg := (apply (sync w) arith ops l.agg origin.message).1
    last := match origin with
      | .frame session number => some (session, number)
      | .ended .. => l.last }

def step (l : Line sessions ω) : Action → Line sessions ω
  | .send =>
    if more : l.sent < (sessions l.session).frames.length then
      { l with
        channel := (l.channel.send (.frame l.session ⟨l.sent, more⟩)).2
        sent := l.sent + 1 }
    else l
  | .endSession now ending =>
    { l with
      channel := (l.channel.send (.ended l.session now ending)).2
      session := l.session + 1
      sent := 0 }
  | .receive =>
    match l.channel.tryRecv with
    | (none, _) => l
    | (some origin, channel) => received arith ops sessions { l with channel := channel } origin

/-- The book events of the first frames of a session. -/
def venueEvents (session count : Nat) : Except VenueError (List SyncAction) :=
  carriedBy w productId ((sessions session).frames.take count)

/-- A live book is the venue's book at the last received frame of one session. -/
def SingleSession (l : Line sessions ω) : Prop :=
  ∀ s, l.agg.streams.find? stream = some s → s.book.book.state.isLive = true →
    ∃ session number carried, l.last = some (session, number) ∧
      venueEvents sessions session (number + 1) = .ok carried ∧
      Describes s.book.book.maxDepth carried s.book.book.levels

/-- The next frame of the session whose frame was received last. -/
def Continues (last : Option (Nat × Nat)) (session number : Nat) : Prop :=
  ∃ count, last = some (session, count) ∧ number = count + 1

/-- A live book takes a frame under the number it expects only right after the frame received
last, or with a snapshot in it. -/
def NoSeam (l : Line sessions ω) : Action → Prop
  | .receive => ∀ session number, l.channel.tryRecv.1 = some (.frame session number) →
    ∀ s, l.agg.streams.find? stream = some s → s.book.book.state.isLive = true →
    s.book.sync.expectedSeq = some (UInt64.ofNat number) →
    Continues l.last session number ∨ ∃ events bids asks,
      frameEvents w productId ((sessions session).frames.get number) = .ok events ∧
        .snapshot bids asks ∈ events
  | _ => True

end Line

variable {J : Type u} {w : CoinbaseWire J} {productId : String} {stream : StreamId}
  {arith : DecimalArith} {ω : Type v} {ops : WindowOps ω}
  {sessions : Nat → Session w productId stream}

/-- The stream's book against the last frame received. -/
structure Placed (sessions : Nat → Session w productId stream) (last : Option (Nat × Nat))
    (vb : VenueBook CoinbaseSync) : Prop where
  product : vb.sync.productId = productId
  live : vb.book.state.isLive = true → vb.sync.expectedSeq ≠ none ∧
    ∃ session number carried, last = some (session, number) ∧
      venueEvents sessions session (number + 1) = .ok carried ∧
      Describes vb.book.maxDepth carried vb.book.levels

theorem frameEvents_ok {n : Nat} {frame : RawFrame} (wf : WellFormed w productId stream n frame) :
    ∃ events, frameEvents w productId frame = .ok events := by
  obtain ⟨env, actions, read, _, parsed⟩ := wf.parses
  by_cases book : env.channel = "l2_data"
  · rw [channelActions] at parsed
    rw [if_pos book] at parsed
    exact ⟨actions, by simp [frameEvents, read, book, parsed]⟩
  · exact ⟨[], by simp [frameEvents, read, book]⟩

theorem wellFormed_get (session : Nat) (number : Fin (sessions session).frames.length) :
    WellFormed w productId stream number ((sessions session).frames.get number) :=
  (sessions session).wellFormed number _ (by simp)

theorem venueEvents_succ {session : Nat} (number : Fin (sessions session).frames.length)
    {carried events : List SyncAction} (before : venueEvents sessions session number = .ok carried)
    (own : frameEvents w productId ((sessions session).frames.get number) = .ok events) :
    venueEvents sessions session (number + 1) = .ok (carried ++ events) := by
  rw [venueEvents] at before ⊢
  rw [List.take_add_one, List.getElem?_eq_getElem number.isLt]
  exact carriedBy_append before (carriedBy_single own)

theorem venueEvents_ok (sessions : Nat → Session w productId stream) (session : Nat) {count : Nat}
    (h : count ≤ (sessions session).frames.length) :
    ∃ carried, venueEvents sessions session count = .ok carried := by
  induction count with
  | zero => exact ⟨[], rfl⟩
  | succ count ih =>
    obtain ⟨carried, before⟩ := ih (by omega)
    obtain ⟨events, own⟩ := frameEvents_ok (wellFormed_get session ⟨count, h⟩)
    exact ⟨carried ++ events, venueEvents_succ ⟨count, h⟩ before own⟩

/-- One frame keeps the book placed, unless it joins the sessions without a snapshot. -/
theorem placed_frame {last : Option (Nat × Nat)} {vb : VenueBook CoinbaseSync}
    (placed : Placed sessions last vb) (session : Nat)
    (number : Fin (sessions session).frames.length)
    (noSeam : vb.book.state.isLive = true →
      vb.sync.expectedSeq = some (UInt64.ofNat number) →
      Continues last session number ∨ ∃ events bids asks,
        frameEvents w productId ((sessions session).frames.get number) = .ok events ∧
          .snapshot bids asks ∈ events) :
    Placed sessions (some (session, number.val))
      (CoinbaseCompleteness.step w arith vb (.frame ((sessions session).frames.get number))) := by
  obtain ⟨env, actions, read, numbered, parsed⟩ := (wellFormed_get session number).parses
  cases accepted : (vb.sync.checkSeq env.sequenceNum).1 with
  | some reason =>
    obtain ⟨noted, _⟩ := @frame_gap_sync J w arith vb _ _ _ read accepted
    refine ⟨by rw [noted, checkSeq_product, placed.product], ?_⟩
    exact fun live => absurd (live.symm.trans (frame_gap read accepted)) nofun
  | none =>
    obtain ⟨events, carries, book, noted, depth, view⟩ :=
      @frame_carries J w arith vb _ _ productId _ rfl placed.product read accepted
        (fun book => by
          rw [channelActions] at parsed
          rw [if_pos book] at parsed
          exact ⟨actions, (bookEvents_congr placed.product env.events).trans parsed⟩)
    refine ⟨by rw [noted, checkSeq_product, placed.product], ?_⟩
    intro live
    refine ⟨by rw [noted, checkSeq_expected]; exact Option.some_ne_none _, session, number, ?_⟩
    have replayed : (replay (fun _ => none) vb.book.maxDepth (viewOf vb.book) events).status =
        .live := view ▸ statusOf_live.mpr live
    have levels := congrArg View.levels view
    rw [depth, show (CoinbaseCompleteness.step w arith vb _).book.levels = _ from levels]
    obtain ⟨carried, before⟩ := venueEvents_ok sessions session (Nat.le_of_lt number.isLt)
    by_cases was : vb.book.state.isLive = true
    · obtain ⟨some_expected, i, m, prior, isLast, priorEvents, priorLevels⟩ := placed.live was
      obtain ⟨expected, expects⟩ := Option.ne_none_iff_exists'.mp some_expected
      have expectsThis : vb.sync.expectedSeq = some (UInt64.ofNat number) := by
        rw [expects, ← numbered, checkSeq_none.mp accepted _ expects]
      rcases noSeam was expectsThis with ⟨count, same, follows⟩ | ⟨_, bids, asks, own, mem⟩
      · cases isLast.symm.trans same
        rw [← follows] at priorEvents
        exact ⟨prior ++ events, rfl, venueEvents_succ number priorEvents carries,
          describes_replay book (fun _ => priorLevels) replayed⟩
      · cases carries.symm.trans own
        exact ⟨carried ++ events, rfl, venueEvents_succ number before carries,
          (describes_snapshot book mem replayed).weaken carried⟩
    · have described := @describes_replay _ _ (viewOf vb.book) [] events book
        (fun h => absurd (statusOf_live.mp h) was) replayed
      exact ⟨carried ++ events, rfl, venueEvents_succ number before carries,
        described.weaken carried⟩

theorem placed_reset {last : Option (Nat × Nat)} {vb : VenueBook CoinbaseSync}
    (placed : Placed sessions last vb) (now : IngestTime) :
    Placed sessions last (vb.reset (sync w) now) :=
  ⟨placed.product, nofun⟩

/-- The book of the stream stays placed. -/
def LinePlaced (l : Line sessions ω) : Prop :=
  ∀ s, l.agg.streams.find? stream = some s → Placed sessions l.last s.book

theorem LinePlaced.single {l : Line sessions ω} (placed : LinePlaced l) :
    SingleSession sessions l :=
  fun s found live => ((placed s found).live live).2

theorem deliver_frame {vb : VenueBook CoinbaseSync} {n : Nat} {frame : RawFrame}
    (wf : WellFormed w productId stream n frame) :
    (deliver (sync w) arith vb (.frame frame)).2 =
      CoinbaseCompleteness.step w arith vb (.frame frame) := by
  obtain ⟨_, _, _, source⟩ := frame
  obtain rfl : source = .webSocket := wf.source
  rfl

theorem linePlaced_received {l : Line sessions ω} (placed : LinePlaced l)
    (origin : Origin sessions)
    (noSeam : ∀ session number, origin = .frame session number →
      ∀ s, l.agg.streams.find? stream = some s → s.book.book.state.isLive = true →
      s.book.sync.expectedSeq = some (UInt64.ofNat number) →
      Continues l.last session number ∨ ∃ events bids asks,
        frameEvents w productId ((sessions session).frames.get number) = .ok events ∧
          .snapshot bids asks ∈ events) :
    LinePlaced (received arith ops sessions l origin) := by
  intro s found
  cases origin with
  | frame session number =>
    have wf := wellFormed_get session number
    have stays : (IngestMessage.frame ((sessions session).frames.get number)).stream = stream :=
      wf.stream
    simp only [received, Origin.message, apply_find, stays, if_true] at found
    obtain ⟨prior, was, rfl⟩ := Option.map_eq_some_iff.mp found
    rw [applyToStream_book, deliver_frame wf]
    exact placed_frame (placed prior was) session number (noSeam session number rfl prior was)
  | ended session now ending =>
    have stays : (IngestMessage.sessionEnded stream now ending).stream = stream := rfl
    simp only [received, Origin.message, apply_find, stays, if_true] at found
    obtain ⟨prior, was, rfl⟩ := Option.map_eq_some_iff.mp found
    rw [applyToStream_book]
    exact placed_reset (placed prior was) now

theorem linePlaced_step {l : Line sessions ω} (action : Action) (placed : LinePlaced l)
    (noSeam : NoSeam sessions l action) : LinePlaced (step arith ops sessions l action) := by
  cases action with
  | send =>
    simp only [step]
    split
    · exact placed
    · exact placed
  | endSession now ending => exact placed
  | receive =>
    cases taken : l.channel.tryRecv with
    | mk item channel =>
      cases item with
      | none => simpa [step, taken] using placed
      | some origin =>
        simp only [step, taken]
        refine linePlaced_received (l := { l with channel := channel }) placed origin ?_
        rintro session number rfl
        exact noSeam session number (by rw [taken])

theorem linePlaced_start (capacity : Nat) (positive : 0 < capacity) (depth : Option Nat)
    (windows : ω) (now : IngestTime) (sink : Bool) :
    LinePlaced (start sessions capacity positive depth windows now sink) := by
  intro s found
  simp only [start, startAggregator, OrderedMap.find?_insert, StreamId.cmp_eq, if_true] at found
  cases found
  cases depth <;> exact ⟨rfl, fun live => by cases live⟩

/-- A run without a seam leaves a live book to one session and complete. -/
theorem live_book_single_session (w : CoinbaseWire J) (productId : String) (stream : StreamId)
    (arith : DecimalArith) (ops : WindowOps ω) (sessions : Nat → Session w productId stream)
    (capacity : Nat) (positive : 0 < capacity) (depth : Option Nat) (windows : ω)
    (now : IngestTime) (sink : Bool) (acts : List Action)
    (noSeam : Meets (step arith ops sessions) (NoSeam sessions)
      (start sessions capacity positive depth windows now sink) acts) :
    SingleSession sessions (exec (step arith ops sessions)
      (start sessions capacity positive depth windows now sink) acts) :=
  LinePlaced.single (exec_invariant (fun _ action => linePlaced_step action)
    (linePlaced_start capacity positive depth windows now sink) noSeam)

section Sample

def largerSnapshot : String :=
  "\x7b\"type\":\"snapshot\",\"product_id\":\"BTC-USD\",\"updates\":[\x7b\"side\":\"bid\",\"price_level\":\"100\",\"new_quantity\":\"5\"\x7d]\x7d"

def twoSessions : CoinbaseWire String :=
  tableWire
    [(message "0" snapshotEvent, ⟨"l2_data", 0, none, [snapshotEvent]⟩),
      (message "0" largerSnapshot, ⟨"l2_data", 0, none, [largerSnapshot]⟩),
      (message "1" updateEvent, ⟨"l2_data", 1, none, [updateEvent]⟩)]
    [(snapshotEvent, ⟨.snapshot, "BTC-USD", [⟨.bid, "100", "1"⟩]⟩),
      (largerSnapshot, ⟨.snapshot, "BTC-USD", [⟨.bid, "100", "5"⟩]⟩),
      (updateEvent, ⟨.update, "BTC-USD", [⟨.bid, "99", "2"⟩]⟩)]

def btcUsd : StreamId := ⟨.coinbase, ⟨"BTC-USD"⟩⟩

def snapshotOf (qty : Fin (2 ^ 96)) : SyncAction := .snapshot [Level.whole 100 qty] []

def updateOf : SyncAction := .delta [Level.whole 99 2] []

def firstSession : Session twoSessions "BTC-USD" btcUsd where
  frames := [sampleFrame (message "0" snapshotEvent)]
  wellFormed
    | 0, _, rfl => ⟨rfl, rfl, ⟨"l2_data", 0, none, [snapshotEvent]⟩,
      [snapshotOf 1], by decide +kernel, rfl, by decide +kernel⟩
  opens
    | _, rfl => ⟨[snapshotOf 1], _, _, by decide +kernel, List.mem_singleton_self _⟩

def secondSession : Session twoSessions "BTC-USD" btcUsd where
  frames := [sampleFrame (message "0" largerSnapshot), sampleFrame (message "1" updateEvent)]
  wellFormed
    | 0, _, rfl => ⟨rfl, rfl, ⟨"l2_data", 0, none, [largerSnapshot]⟩,
      [snapshotOf 5], by decide +kernel, rfl, by decide +kernel⟩
    | 1, _, rfl => ⟨rfl, rfl, ⟨"l2_data", 1, none, [updateEvent]⟩,
      [updateOf], by decide +kernel, rfl, by decide +kernel⟩
  opens
    | _, rfl => ⟨[snapshotOf 5], _, _, by decide +kernel, List.mem_singleton_self _⟩

def sampleSessions : Nat → Session twoSessions "BTC-USD" btcUsd
  | 0 => firstSession
  | 1 => secondSession
  | _ => ⟨[], nofun, nofun⟩

def sampleStart (capacity : Nat) (positive : 0 < capacity) : Line sampleSessions Unit :=
  start sampleSessions capacity positive none () ⟨0, 0⟩ false

def sampleStep : Line sampleSessions Unit → Action → Line sampleSessions Unit :=
  step DecimalArith.idle noWindows sampleSessions

/-- What a reader sees of the book: whether it is believed, its bound and its levels. -/
def shown (l : Line sampleSessions Unit) : Option (Bool × Option Nat × Levels) :=
  (l.agg.streams.find? btcUsd).map
    (fun s => (s.book.book.state.isLive, s.book.book.maxDepth, s.book.book.levels))

instance (last : Option (Nat × Nat)) (session number : Nat) :
    Decidable (Continues last session number) :=
  decidable_of_iff (∃ frame ∈ last, frame.1 = session ∧ number = frame.2 + 1) (by
    constructor
    · rintro ⟨⟨x, count⟩, found, rfl, follows⟩
      exact ⟨count, found, follows⟩
    · rintro ⟨count, found, follows⟩
      exact ⟨(session, count), found, rfl, follows⟩)

/-- The next item is no frame, or the book is not live or does not expect it, or it continues
the session received last. -/
def seamless (l : Line sampleSessions Unit) : Bool :=
  match l.channel.tryRecv.1 with
  | some (.frame session number) => (l.agg.streams.find? btcUsd).all (fun s =>
      decide (s.book.book.state.isLive = true →
        s.book.sync.expectedSeq = some (UInt64.ofNat number) →
        Continues l.last session number))
  | _ => true

theorem noSeam_receive {l : Line sampleSessions Unit} (checked : seamless l = true) :
    NoSeam sampleSessions l .receive := by
  intro session number taken s found live expects
  rw [seamless, taken] at checked
  simp only [found, Option.all_some, decide_eq_true_eq] at checked
  exact .inl (checked live expects)

/-- Capacity two: the first snapshot is dropped, and session 1 is received whole. -/
def handedOver : List Action :=
  [.send, .endSession ⟨1, 1⟩ .closed, .send, .receive, .receive, .send, .receive]

theorem live_book_single_session_handed_over :
    SingleSession sampleSessions (exec sampleStep (sampleStart 2 (by decide)) handedOver) ∧
      (exec sampleStep (sampleStart 2 (by decide)) handedOver).last = some (1, 1) ∧
      (shown (exec sampleStep (sampleStart 2 (by decide)) handedOver)).map Prod.fst =
        some true := by
  refine ⟨live_book_single_session twoSessions "BTC-USD" btcUsd DecimalArith.idle noWindows
    sampleSessions 2 (by decide) none () ⟨0, 0⟩ false handedOver
    ⟨trivial, trivial, trivial, ?_, ?_, trivial, ?_, trivial⟩, by decide +kernel, by decide +kernel⟩
  · exact noSeam_receive (by decide +kernel)
  · exact noSeam_receive (by decide +kernel)
  · exact noSeam_receive (by decide +kernel)

/-- Capacity one: the end of session 0 and the snapshot of session 1 are dropped. -/
def crowded : List Action :=
  [.send, .receive, .endSession ⟨1, 1⟩ .closed, .send, .send, .receive]

theorem crowded_mixes_sessions :
    ¬ ∀ (J : Type) (w : CoinbaseWire J) (productId : String) (stream : StreamId)
      (arith : DecimalArith) (ops : WindowOps Unit) (sessions : Nat → Session w productId stream)
      (capacity : Nat) (positive : 0 < capacity) (depth : Option Nat) (now : IngestTime)
      (sink : Bool) (acts : List Action),
      SingleSession sessions (exec (step arith ops sessions)
        (start sessions capacity positive depth () now sink) acts) := by
  intro claim
  have single := claim String twoSessions "BTC-USD" btcUsd .idle noWindows sampleSessions 1
    (by decide) none ⟨0, 0⟩ false crowded
  have mixed : shown (exec sampleStep (sampleStart 1 (by decide)) crowded) =
      some (true, none, (Levels.snapshot [Level.whole 100 1] []).delta
        [Level.whole 99 2] []) := by decide +kernel
  have isLast : (exec sampleStep (sampleStart 1 (by decide)) crowded).last = some (1, 1) := by
    decide +kernel
  have sentBy : venueEvents sampleSessions 1 2 = .ok [snapshotOf 5, updateOf] := by
    decide +kernel
  obtain ⟨s, found, seen⟩ := Option.map_eq_some_iff.mp mixed
  obtain ⟨live, unbounded, levels⟩ := by simpa only [Prod.mk.injEq] using seen
  obtain ⟨session, number, carried, last, events, described⟩ := single s found live
  cases isLast.symm.trans last
  cases sentBy.symm.trans events
  rw [unbounded, levels] at described
  have venue : Describes none [snapshotOf 5, updateOf]
      ((Levels.snapshot [Level.whole 100 5] []).delta
        [Level.whole 99 2] []) := ⟨[], (_, _), [(_, _)], rfl, rfl⟩
  exact absurd (described.unique venue) (by decide +kernel)

end Sample

end SessionMixing
