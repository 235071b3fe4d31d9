import MarketAggregator.LaneOrders
import MarketAggregator.ReplayedViews

/-!
# Streams do not disturb one another

The ingest tasks share one channel, and their messages reach the aggregator in any order that
keeps the order of every stream. Each message belongs to one stream and the ticks that publish
are common to all. What a stream becomes depends on its own messages and the ticks alone, so
the order in which streams take turns shows nowhere.
-/

namespace StreamIndependence

open AggregatorApply CrossTouch Decimals GatewayMerge GuardedRuns LaneOrders NodeSnapshots
  OrderedMaps VenueBooks VenueStreams WindowBuckets

universe u v

/-- What the aggregator lets out of a turn. -/
inductive Shown (κ ρ : Type) where
  | snapshot (snapshot : Snapshot κ ρ)
  | effect (effect : Effect)

/-- The stream of a message; a tick is of no stream. -/
def laneOf : Turn → Option StreamId
  | .apply message => some message.stream
  | .publish _ _ => none

section Turns

variable {σ : Type u} {κ ρ : Type} (v : VenueSync σ) (arith : TouchArith)
  (readings : Nat → StreamId → κ × ρ) (channel : Nat → ChannelMetrics)

/-- The events and requests of a message, or the snapshot of a tick. -/
def shown (p : Publisher σ) : Turn → List (Shown κ ρ)
  | .apply message => (apply v arith.toDecimalArith windowOps p.agg message).2.map .effect
  | .publish owned now =>
    [.snapshot (p.snapshot arith owned now (readings p.seq) (channel p.seq)).1]

/-- The events and requests of one stream. -/
def effectsFor (x : StreamId) (p : Publisher σ) : Turn → List Effect
  | .apply message =>
    if message.stream = x then (apply v arith.toDecimalArith windowOps p.agg message).2 else []
  | .publish _ _ => []

end Turns

section Orders

variable {σ : Type u} {ω : Type v} {v : VenueSync σ} {arith : DecimalArith} {ops : WindowOps ω}
  {agg : Aggregator σ ω} {message other : IngestMessage}

@[simp] theorem apply_sink : (apply v arith ops agg message).1.sink = agg.sink := by
  rw [apply]
  cases agg.streams.find? message.stream <;> rfl

theorem find?_apply_other {x : StreamId} (foreign : message.stream ≠ x) :
    (apply v arith ops agg message).1.streams.find? x = agg.streams.find? x := by
  rw [apply_find, if_neg foreign.symm]

/-- A message has the effects that its stream gives it. -/
theorem apply_effects : (apply v arith ops agg message).2 =
    ((agg.streams.find? message.stream).map
      (fun s => (applyToStream v arith ops agg.sink s message).2)).getD [] := by
  rw [apply]
  cases agg.streams.find? message.stream <;> rfl

theorem apply_undisturbed (apart : message.stream ≠ other.stream) :
    (apply v arith ops (apply v arith ops agg other).1 message).2 =
      (apply v arith ops agg message).2 := by
  rw [apply_effects, apply_effects, find?_apply_other apart.symm, apply_sink]

theorem apply_commute (apart : message.stream ≠ other.stream) :
    (apply v arith ops (apply v arith ops agg message).1 other).1 =
      (apply v arith ops (apply v arith ops agg other).1 message).1 := by
  have streams : (apply v arith ops (apply v arith ops agg message).1 other).1.streams =
      (apply v arith ops (apply v arith ops agg other).1 message).1.streams := by
    refine OrderedMap.eq_of_find? fun x => ?_
    simp only [apply_find, apply_sink]
    by_cases first : x = message.stream
    · have second : x ≠ other.stream := fun same => apart (first.symm.trans same)
      simp only [if_pos first, if_neg second]
    · simp only [if_neg first]
  have sink : (apply v arith ops (apply v arith ops agg message).1 other).1.sink =
      (apply v arith ops (apply v arith ops agg other).1 message).1.sink := by
    simp only [apply_sink]
  generalize apply v arith ops (apply v arith ops agg message).1 other = first at *
  generalize apply v arith ops (apply v arith ops agg other).1 message = second at *
  obtain ⟨⟨_, _⟩, _⟩ := first
  obtain ⟨⟨_, _⟩, _⟩ := second
  obtain rfl := streams
  obtain rfl := sink
  rfl

end Orders

section Runs

variable {σ : Type u} {κ ρ : Type} {v : VenueSync σ} {arith : TouchArith} {p : Publisher σ}
  {x : StreamId} {turns others : List Turn} {readings : Nat → StreamId → κ × ρ}
  {channel : Nat → ChannelMetrics}

theorem independent : Independent (step v arith.toDecimalArith) (shown v arith readings channel)
    laneOf := by
  constructor
  · intro p a b x y own_a own_b apart
    cases a with
    | publish owned now => cases own_a
    | apply message => cases b with
      | publish owned now => cases own_b
      | apply other =>
        obtain rfl := Option.some.inj own_a
        obtain rfl := Option.some.inj own_b
        exact congrArg (fun agg => { p with agg }) (apply_commute apart)
  · intro p a b x y own_a own_b apart
    cases a with
    | publish owned now => cases own_a
    | apply message => cases b with
      | publish owned now => cases own_b
      | apply other =>
        obtain rfl := Option.some.inj own_a
        obtain rfl := Option.some.inj own_b
        exact congrArg (List.map Shown.effect) (apply_undisturbed apart)

/-- The figures of one stream, and whether its events are kept. -/
def figuresOf (x : StreamId) (p : Publisher σ) : Option (VenueState σ RollingWindows) × Bool :=
  (p.agg.streams.find? x, p.agg.sink)

theorem figures_local : Local (step v arith.toDecimalArith) (effectsFor v arith x) laneOf x
    (figuresOf x) := by
  constructor
  · intro p a y own foreign
    cases a with
    | publish owned now => cases own
    | apply message =>
      obtain rfl := Option.some.inj own
      refine ⟨?_, if_neg foreign⟩
      exact Prod.ext (find?_apply_other foreign) apply_sink
  · intro p q a own same
    obtain ⟨found, sink⟩ := Prod.mk.inj same
    cases a with
    | publish owned now =>
      refine ⟨Prod.ext ?_ sink, rfl⟩
      simp only [figuresOf, NodeSnapshots.step, Publisher.advance, OrderedMap.find?_mapValues,
        found]
    | apply message =>
      constructor
      · refine Prod.ext ?_ ?_
        · simp only [figuresOf, NodeSnapshots.step, apply_find, found, sink]
        · simp only [figuresOf, NodeSnapshots.step, apply_sink, sink]
      · rw [effectsFor, effectsFor]
        split_ifs with mine
        · rw [apply_effects, apply_effects, mine, found, sink]
        · rfl

/-- However the messages of different streams are interleaved between the ticks, the aggregator
ends in the same state, and every stream's events and requests and all snapshots come out in the
same order. -/
theorem interleavings_agree (alike : ∀ x, seen laneOf x turns = seen laneOf x others) :
    exec (step v arith.toDecimalArith) p turns = exec (step v arith.toDecimalArith) p others ∧
      ∀ x, outputs (step v arith.toDecimalArith) (told laneOf (shown v arith readings channel) x)
          p turns =
        outputs (step v arith.toDecimalArith) (told laneOf (shown v arith readings channel) x)
          p others :=
  have : Nonempty StreamId := ⟨ReplayedViews.btcUsd⟩
  same_of_seen independent alike

/-- A stream ends as it would have without the others, after the same events and requests. -/
theorem stream_alone (p : Publisher σ) (turns : List Turn) (x : StreamId) :
    (exec (step v arith.toDecimalArith) p turns).agg.streams.find? x =
        (exec (step v arith.toDecimalArith) p (seen laneOf x turns)).agg.streams.find? x ∧
      outputs (step v arith.toDecimalArith) (effectsFor v arith x) p turns =
        outputs (step v arith.toDecimalArith) (effectsFor v arith x) p (seen laneOf x turns) := by
  obtain ⟨figures, effects⟩ := figures_local.alone (s := p) rfl turns
  exact ⟨(Prod.mk.inj figures).1, effects⟩

end Runs

section Sample

open FakeFeed ReplayedViews

def ethUsd : StreamId := ⟨.kraken, ⟨"ETH-USD"⟩⟩

/-- One stream's book and the end of another's session, before one tick. -/
def bookFirst : List Turn :=
  [.apply (.frame ⟨btcUsd, .text KrakenChecksums.sampleText, ⟨5, 5⟩, .webSocket⟩),
    .apply (.sessionEnded ethUsd ⟨6, 6⟩ .idle), .publish none ⟨9, 9⟩]

def bookLast : List Turn :=
  [.apply (.sessionEnded ethUsd ⟨6, 6⟩ .idle),
    .apply (.frame ⟨btcUsd, .text KrakenChecksums.sampleText, ⟨5, 5⟩, .webSocket⟩),
    .publish none ⟨9, 9⟩]

def sampleVenues : VenueSync EverySync := everySync EventReplay.historyWires

def samplePublisher : Publisher EverySync :=
  start sampleVenues
    (⟨.market (.kraken (KrakenFeed.KrakenSync.new "ETH/USD")), ethUsd.symbol, some 10⟩ ::
      sampleSpecs)
    (.new 1000000 [1000000]) ⟨3, 3⟩ true 5 ⟨7⟩

def sampleRun (turns : List Turn) : Publisher EverySync :=
  exec (step sampleVenues TouchArith.idle.toDecimalArith) samplePublisher turns

def sampleTold (x : StreamId) (turns : List Turn) : List (Shown Nat Nat) :=
  outputs (step sampleVenues TouchArith.idle.toDecimalArith)
    (told laneOf (shown sampleVenues TouchArith.idle (fun seq _ => (seq, 0))
      (fun _ => ⟨0, 8, 0⟩)) x) samplePublisher turns

theorem interleavings_agree_sample : sampleRun bookFirst = sampleRun bookLast ∧
    ∀ x, sampleTold x bookFirst = sampleTold x bookLast := by
  refine interleavings_agree fun x => ?_
  by_cases book : btcUsd = x
  · subst book
    rfl
  · have hidden : decide (btcUsd = x) = false := decide_eq_false book
    simp [seen, bookFirst, bookLast, laneOf, IngestMessage.stream, hidden, List.filter_cons]

end Sample

end StreamIndependence
