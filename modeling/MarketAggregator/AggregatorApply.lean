import MarketAggregator.VenueBooks

/-!
# What the aggregator does with one message

The aggregator owns one book per stream and applies every message to the book of
its stream. A message that desyncs a trusted book for a reason that only a new
stream repairs asks the ingest task for one. The rolling windows and the counters
ride along and decide nothing.
-/

namespace AggregatorApply

open Clocks Decimals MarketEvents OrderBook OrderedMaps VenueBooks VenueStreams

universe u v

inductive SessionEnd where
  | connectFailed
  | closed
  | errored
  | idle
  | resyncRequested
  | downstream
  | stopped
  deriving DecidableEq, Repr

/-- Whether the ingest task connects again after a session. -/
def SessionEnd.shouldRetry : SessionEnd → Bool
  | .stopped => false
  | .downstream => false
  | _ => true

/-- Session boundaries travel in the same channel as the frames. -/
inductive IngestMessage where
  | frame (frame : RawFrame)
  | event (stream : StreamId) (event : MarketEvent)
  | sessionEnded (stream : StreamId) (now : IngestTime) (ending : SessionEnd)

def IngestMessage.stream : IngestMessage → StreamId
  | .frame raw => raw.stream
  | .event stream _ => stream
  | .sessionEnded stream _ _ => stream

/-- The counters that applying a message moves. -/
structure Counters where
  applied : Nat
  parseErrors : Nat
  heartbeats : Nat
  trades : Nat
  desyncs : Nat
  deriving DecidableEq, Repr

/-- The rolling windows, observed and never read here. -/
structure WindowOps (ω : Type v) where
  observe : ω → TopOfBook → IngestTime → ω
  observeTrade : ω → Decimal → Decimal → IngestTime → ω

/-- No statistics kept. -/
def noWindows : WindowOps Unit := ⟨fun u _ _ => u, fun u _ _ _ => u⟩

structure VenueState (σ : Type u) (ω : Type v) where
  book : VenueBook σ
  counters : Counters
  desyncedTotal : Nat
  desyncedSince : Option IngestTime
  statusSince : IngestTime
  windows : ω
  lastTrade : Option (Price × Qty × Option Side × IngestTime)

/-- What applying a message does outside the aggregator. -/
inductive Effect where
  | requestResync (stream : StreamId)
  | emit (event : MarketEvent)
  deriving DecidableEq

structure Aggregator (σ : Type u) (ω : Type v) where
  streams : OrderedMap StreamId (VenueState σ ω) StreamId.cmp
  sink : Bool

def isDesynced : BookState → Bool
  | .desynced .. => true
  | _ => false

/-- Whether the reason a book is desynced for takes a new stream to repair. -/
def faulty : BookState → Bool
  | .desynced _ reason => reason.needsFreshStream
  | _ => false

/-- A change of status into a fault, out of a book that was not already desynced. -/
def asksResync (before after : BookState) : Bool :=
  !before.sameStatus after && faulty after && !isDesynced before

section Apply

variable {σ : Type u} {ω : Type v} (v : VenueSync σ) (arith : DecimalArith) (ops : WindowOps ω)

/-- What a message does to the book of its stream. -/
def deliver (vb : VenueBook σ) : IngestMessage → Except VenueError (List Outcome) × VenueBook σ
  | .frame frame => vb.feed v arith frame
  | .event _ event =>
    let applied := vb.applyEvent v event event.ingestTs
    (.ok applied.1, applied.2)
  | .sessionEnded _ now _ => (.ok [], vb.reset v now)

namespace VenueState

def new (sync : σ) (symbol : Symbol) (depth : Option Nat) (windows : ω) (now : IngestTime) :
    VenueState σ ω where
  book :=
    let book := VenueBook.new v sync symbol
    match depth with
    | none => book
    | some depth => book.withMaxDepth depth
  counters := ⟨0, 0, 0, 0, 0⟩
  desyncedTotal := 0
  desyncedSince := none
  statusSince := now
  windows := windows
  lastTrade := none

def sampleWindows (s : VenueState σ ω) (now : IngestTime) : VenueState σ ω :=
  { s with windows := ops.observe s.windows (s.book.book.topOfBook now) now }

/-- Desync time is charged when a book becomes trusted again. -/
def noteTransition (s : VenueState σ ω) (before after : BookState) (now : IngestTime) :
    VenueState σ ω :=
  let s := match isDesynced before, isDesynced after with
    | false, true =>
      { s with
        desyncedSince := some now
        counters := { s.counters with desyncs := s.counters.desyncs + 1 } }
    | true, false =>
      { s with
        desyncedSince := none
        desyncedTotal := s.desyncedTotal + (s.desyncedSince.map now.since).getD 0 }
    | _, _ => s
  { s with statusSince := now }

/-- Count one applied event, and remember a print. -/
def noteEvent (s : VenueState σ ω) (event : MarketEvent) : VenueState σ ω :=
  match event.kind with
  | .heartbeat _ =>
    { s with counters := { s.counters with heartbeats := s.counters.heartbeats + 1 } }
  | .trade price qty takerSide =>
    { s with
      counters := { s.counters with trades := s.counters.trades + 1 }
      lastTrade := some (price, qty, takerSide, event.ingestTs)
      windows := ops.observeTrade s.windows price.decimal qty.decimal event.ingestTs }
  | _ => s

end VenueState

def outcomeEvents : List Outcome → List MarketEvent
  | [] => []
  | .event event :: rest => event :: outcomeEvents rest
  | .stateChanged .. :: rest => outcomeEvents rest

def applyToStream (sink : Bool) (s : VenueState σ ω) (message : IngestMessage) :
    VenueState σ ω × List Effect :=
  let s := { s with counters := { s.counters with applied := s.counters.applied + 1 } }
  let before := s.book.book.state
  let delivered := deliver v arith s.book message
  let after := delivered.2.book.state
  let s := { s with book := delivered.2 }
  match message with
  | .sessionEnded _ now _ =>
    let s := if before.sameStatus after then s else s.noteTransition before after now
    (s.sampleWindows ops now, [])
  | .frame frame =>
    match delivered.1 with
    | .error _ =>
      let s := { s with counters := { s.counters with parseErrors := s.counters.parseErrors + 1 } }
      (s.sampleWindows ops frame.ingestTs, [])
    | .ok outcomes => settle s before after outcomes frame.ingestTs
  | .event _ event =>
    match delivered.1 with
    | .error _ => (s, [])
    | .ok outcomes => settle s before after outcomes event.ingestTs
where
  /-- After the book: the transition, a request, the events and the sample, in this order. -/
  settle (s : VenueState σ ω) (before after : BookState) (outcomes : List Outcome)
      (now : IngestTime) : VenueState σ ω × List Effect :=
    let s := if before.sameStatus after then s else s.noteTransition before after now
    let asks := if asksResync before after then [Effect.requestResync message.stream] else []
    let events := outcomeEvents outcomes
    let s := events.foldl (VenueState.noteEvent ops) s
    (s.sampleWindows ops now, asks ++ if sink then events.map Effect.emit else [])

def apply (agg : Aggregator σ ω) (message : IngestMessage) : Aggregator σ ω × List Effect :=
  match agg.streams.find? message.stream with
  | none => (agg, [])
  | some s =>
    let applied := applyToStream v arith ops agg.sink s message
    ({ agg with streams := agg.streams.insert message.stream applied.1 }, applied.2)

/-- One stream to track: the venue's sync, the symbol and the depth to retain. -/
structure VenueSpec (σ : Type u) where
  sync : σ
  symbol : Symbol
  maxDepth : Option Nat

def VenueSpec.stream (spec : VenueSpec σ) : StreamId := ⟨v.venue spec.sync, spec.symbol⟩

/-- One book per stream, the last spec of a stream winning. -/
def Aggregator.new (specs : List (VenueSpec σ)) (windows : ω) (now : IngestTime) (sink : Bool) :
    Aggregator σ ω where
  streams := OrderedMap.ofList (specs.map (fun spec =>
    (spec.stream v, VenueState.new v spec.sync spec.symbol spec.maxDepth windows now)))
  sink := sink

end Apply

section Lemmas

variable {σ : Type u} {ω : Type v} {v : VenueSync σ} {arith : DecimalArith} {ops : WindowOps ω}
  {s : VenueState σ ω} {agg : Aggregator σ ω} {message : IngestMessage}

theorem StreamId.cmp_eq {a b : StreamId} : StreamId.cmp a b = .eq ↔ a = b :=
  ⟨Std.LawfulEqCmp.eq_of_compare, fun h => h ▸ Std.ReflCmp.compare_self⟩

@[simp] theorem sampleWindows_book {now : IngestTime} :
    (s.sampleWindows ops now).book = s.book := rfl

@[simp] theorem noteTransition_book {before after : BookState} {now : IngestTime} :
    (s.noteTransition before after now).book = s.book := by
  rw [VenueState.noteTransition]
  cases isDesynced before <;> cases isDesynced after <;> rfl

@[simp] theorem noteEvent_book {event : MarketEvent} : (s.noteEvent ops event).book = s.book := by
  rw [VenueState.noteEvent]
  split <;> rfl

@[simp] theorem noteEvents_book {events : List MarketEvent} :
    (events.foldl (VenueState.noteEvent ops) s).book = s.book := by
  induction events generalizing s with
  | nil => rfl
  | cons event events ih => rw [List.foldl_cons, ih, noteEvent_book]

@[simp] theorem settle_book {sink : Bool} {before after : BookState} {outcomes : List Outcome}
    {now : IngestTime} :
    (applyToStream.settle ops sink message s before after outcomes now).1.book = s.book := by
  rw [applyToStream.settle]
  cases before.sameStatus after <;> simp

/-- The book of the stream moves as the message moves it; nothing else touches it. -/
theorem applyToStream_book {sink : Bool} :
    (applyToStream v arith ops sink s message).1.book = (deliver v arith s.book message).2 := by
  cases message with
  | sessionEnded stream now ending =>
    simp only [applyToStream, sampleWindows_book]
    split <;> simp
  | event stream event => simp [applyToStream, deliver]
  | frame frame =>
    simp only [applyToStream]
    split <;> simp

theorem apply_untracked (h : agg.streams.find? message.stream = none) :
    apply v arith ops agg message = (agg, []) := by
  simp [apply, h]

theorem apply_find (x : StreamId) : (apply v arith ops agg message).1.streams.find? x =
    if x = message.stream then
      (agg.streams.find? x).map (fun s => (applyToStream v arith ops agg.sink s message).1)
    else agg.streams.find? x := by
  cases h : agg.streams.find? message.stream with
  | none =>
    rw [apply_untracked h]
    split
    · rename_i same
      rw [same, h]
      rfl
    · rfl
  | some s =>
    simp only [apply, h, OrderedMap.find?_insert, StreamId.cmp_eq]
    split
    · rename_i same
      rw [same, h]
      rfl
    · rfl

/-- A stream found after a message was there before it, with its book moved or not. -/
theorem find?_apply {x : StreamId} {t : VenueState σ ω}
    (found : (apply v arith ops agg message).1.streams.find? x = some t) :
    (x ≠ message.stream ∧ agg.streams.find? x = some t) ∨
      x = message.stream ∧ ∃ s, agg.streams.find? x = some s ∧
        t.book = (deliver v arith s.book message).2 := by
  rw [apply_find] at found
  split at found
  · rename_i same
    obtain ⟨s, was, rfl⟩ := Option.map_eq_some_iff.mp found
    exact .inr ⟨same, s, was, applyToStream_book⟩
  · rename_i other
    exact .inl ⟨other, found⟩

/-- Only a book that was not desynced asks, and it asks whenever it is left in a fault. -/
theorem asksResync_iff {before after : BookState} :
    asksResync before after = true ↔ faulty after = true ∧ isDesynced before = false := by
  cases before <;> cases after <;>
    simp [asksResync, faulty, isDesynced, BookState.sameStatus]

/-- A message that fails leaves the book alone. -/
theorem deliver_error {vb : VenueBook σ} {e : VenueError}
    (failed : (deliver v arith vb message).1 = .error e) :
    (deliver v arith vb message).2.book = vb.book := by
  cases message with
  | sessionEnded stream now ending => cases failed
  | event stream event => cases failed
  | frame frame =>
    have refused : (vb.feed v arith frame).1 = .error e := failed
    have notOk : (vb.feed v arith frame).1.isOk ≠ true := by
      simp [refused, Except.isOk, Except.toBool]
    rcases VenueBook.feed_cases v arith vb frame with
      ⟨_, _, _, fed⟩ | ⟨_, _, _, ok, _⟩ | ⟨_, fed⟩ | ⟨_, ok, _⟩ | ⟨_, ok, _⟩
    · exact congrArg (fun r => r.2.book) fed
    · exact absurd ok notOk
    · exact congrArg (fun r => r.2.book) fed
    · exact absurd ok notOk
    · exact absurd ok notOk

theorem noteTransition_applied {before after : BookState} {now : IngestTime} :
    (s.noteTransition before after now).counters.applied = s.counters.applied := by
  rw [VenueState.noteTransition]
  cases isDesynced before <;> cases isDesynced after <;> rfl

theorem noteEvents_applied {events : List MarketEvent} :
    (events.foldl (VenueState.noteEvent ops) s).counters.applied = s.counters.applied := by
  induction events generalizing s with
  | nil => rfl
  | cons event events ih =>
    rw [List.foldl_cons, ih, VenueState.noteEvent]
    split <;> rfl

theorem settle_applied {sink : Bool} {before after : BookState} {outcomes : List Outcome}
    {now : IngestTime} :
    (applyToStream.settle ops sink message s before after outcomes now).1.counters.applied =
      s.counters.applied := by
  simp only [applyToStream.settle, VenueState.sampleWindows, noteEvents_applied]
  split
  · rfl
  · exact noteTransition_applied

/-- Every message of a tracked stream counts once, whether or not its frame parses. -/
theorem applyToStream_applied {sink : Bool} :
    (applyToStream v arith ops sink s message).1.counters.applied = s.counters.applied + 1 := by
  cases message with
  | sessionEnded stream now ending =>
    simp only [applyToStream, VenueState.sampleWindows]
    split
    · rfl
    · rw [noteTransition_applied]
  | event stream event =>
    have done : (deliver v arith s.book (.event stream event)).1 =
        .ok (s.book.applyEvent v event event.ingestTs).1 := rfl
    simp only [applyToStream, done, settle_applied]
  | frame frame =>
    simp only [applyToStream]
    split
    · rfl
    · rw [settle_applied]

theorem requestResync_mem_settle {sink : Bool} {before after : BookState}
    {outcomes : List Outcome} {now : IngestTime} {x : StreamId} :
    .requestResync x ∈ (applyToStream.settle ops sink message s before after outcomes now).2 ↔
      x = message.stream ∧ asksResync before after = true := by
  rw [applyToStream.settle]
  cases asksResync before after <;> cases sink <;> simp

/-- The requests of one message. A session's end asks for nothing. -/
theorem requestResync_mem {sink : Bool} {x : StreamId} :
    .requestResync x ∈ (applyToStream v arith ops sink s message).2 ↔
      x = message.stream ∧ (∀ stream now ending, message ≠ .sessionEnded stream now ending) ∧
        asksResync s.book.book.state (deliver v arith s.book message).2.book.state = true := by
  cases message with
  | sessionEnded stream now ending => simp [applyToStream]
  | event stream event =>
    have done : (deliver v arith s.book (.event stream event)).1 =
        .ok (s.book.applyEvent v event event.ingestTs).1 := rfl
    simp [applyToStream, done, requestResync_mem_settle]
  | frame frame =>
    cases result : (deliver v arith s.book (.frame frame)).1 with
    | error e =>
      have kept := deliver_error result
      simp only [applyToStream, result, kept, asksResync_iff]
      cases s.book.book.state <;> simp [faulty, isDesynced]
    | ok outcomes => simp [applyToStream, result, requestResync_mem_settle]

theorem requests_settle {sink : Bool} {before after : BookState} {outcomes : List Outcome}
    {now : IngestTime} (x : StreamId) :
    ((applyToStream.settle ops sink message s before after outcomes now).2.filter
      (· = .requestResync x)).length ≤ 1 := by
  have events : ∀ l : List MarketEvent,
      (l.map Effect.emit).filter (· = .requestResync x) = [] := by
    intro l
    simp
  rw [applyToStream.settle]
  cases asksResync before after <;> cases sink <;>
    simp [List.filter_cons, events, apply_ite List.length] <;> split <;> simp

/-- One message raises one request at most. -/
theorem requests_le_one (x : StreamId) : ((apply v arith ops agg message).2.filter
    (· = .requestResync x)).length ≤ 1 := by
  cases found : agg.streams.find? message.stream with
  | none => simp [apply_untracked found]
  | some t =>
    simp only [apply, found]
    cases message with
    | sessionEnded stream now ending => simp [applyToStream]
    | event stream event =>
      have done : (deliver v arith t.book (.event stream event)).1 =
          .ok (t.book.applyEvent v event event.ingestTs).1 := rfl
      simp only [applyToStream, done]
      exact requests_settle x
    | frame frame =>
      simp only [applyToStream]
      split
      · simp
      · exact requests_settle x

theorem find?_new {specs : List (VenueSpec σ)} {windows : ω} {now : IngestTime} {sink : Bool}
    {x : StreamId} (found : (Aggregator.new v specs windows now sink).streams.find? x = some s) :
    ∃ spec ∈ specs, spec.stream v = x ∧
      s = VenueState.new v spec.sync spec.symbol spec.maxDepth windows now := by
  obtain ⟨key, mem, same⟩ := OrderedMap.find?_mem found
  obtain rfl := StreamId.cmp_eq.mp same
  obtain ⟨spec, given, entry⟩ := List.mem_map.mp (OrderedMap.mem_of_ofList mem)
  obtain ⟨rfl, rfl⟩ := Prod.mk.inj entry
  exact ⟨spec, given, rfl, rfl⟩

@[simp] theorem new_state {sync : σ} {symbol : Symbol} {depth : Option Nat} {windows : ω}
    {now : IngestTime} :
    (VenueState.new v sync symbol depth windows now).book.book.state = .uninitialized := by
  cases depth <;> rfl

end Lemmas

end AggregatorApply
