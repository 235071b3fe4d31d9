import MarketAggregator.ArchiveOrder
import MarketAggregator.ArchiveReplay
import MarketAggregator.EventReplay

/-!
# An archive rebuilds the books behind it

A node lets its events out in the order in which its books moved. They are written, read back
and sent into the aggregator of another node, that of all streams at once. Where the files keep
the order of a symbol's events, every book of the replay ends with the levels of the live book,
and is trusted if that was.
-/

namespace ArchivedBooks

open AggregatorApply ArchiveContents ArchiveKeys ArchiveOrder ArchiveReader ArchiveReplay
  ArchiveRows ArchiveRuns ArchiveWriter Clocks Decimals FakeFeed GuardedRuns MarketEvents OrderBook
  OrderedMaps TrustedReplay VenueBooks VenueStreams

open EventReplay (Input Mirror Rated Told echo fresh receive replayAll follows_receive
  faithful_start faithful_step)

universe u v x y

/-- What a message of a live run is to its book. Only a replay sends events. -/
def inputOf : IngestMessage → Option Input
  | .frame frame => some (.feed frame)
  | .sessionEnded _ now _ => some (.reset now)
  | .event _ _ => none

def emits (effects : List Effect) : List MarketEvent :=
  effects.filterMap fun effect => match effect with
    | .emit event => some event
    | .requestResync _ => none

/-- The events of a delivery. -/
def eventsIn : Except VenueError (List Outcome) → List MarketEvent
  | .ok outcomes => outcomeEvents outcomes
  | .error _ => []

def ofStream (x : StreamId) (event : MarketEvent) : Bool :=
  decide ((⟨event.venue, event.symbol⟩ : StreamId) = x)

section Model

variable {σ : Type u} {ω : Type v} (v : VenueSync σ) (arith : DecimalArith) (ops : WindowOps ω)

def applied (agg : Aggregator σ ω) (message : IngestMessage) : Aggregator σ ω :=
  (apply v arith ops agg message).1

def emittedBy (agg : Aggregator σ ω) (message : IngestMessage) : List MarketEvent :=
  emits (apply v arith ops agg message).2

/-- Every book goes by the name of its stream. -/
def Named (agg : Aggregator σ ω) : Prop :=
  ∀ x s, agg.streams.find? x = some s → s.book.stream = x

end Model

section Names

variable {σ : Type u} {v : VenueSync σ} {arith : DecimalArith} {vb : VenueBook σ} {book : Book}
  {hash : Levels → Option UInt32} {integrity : Integrity} {now : IngestTime}

def SameName (book other : Book) : Prop := other.venue = book.venue ∧ other.symbol = book.symbol

theorem name_guardCrossed : SameName book (book.guardCrossed now).2 := by
  rw [Book.guardCrossed]
  cases book.levels.crossed <;> exact ⟨rfl, rfl⟩

theorem name_verify {expected : UInt32} : SameName book (verify hash book expected now) := by
  rw [verify]
  split
  · split
    · exact ⟨rfl, rfl⟩
    · split
      · rw [Book.markVerified]
        split <;> exact ⟨rfl, rfl⟩
      · exact ⟨rfl, rfl⟩
  · exact ⟨rfl, rfl⟩

theorem name_applyAction (action : SyncAction) :
    SameName book (applyAction hash integrity now book action).1 := by
  cases action with
  | ignore => exact ⟨rfl, rfl⟩
  | forward kind => exact ⟨rfl, rfl⟩
  | desync reason => exact ⟨rfl, rfl⟩
  | verify expected => exact name_verify
  | snapshot bids asks => exact name_guardCrossed
  | delta bids asks =>
    rw [applyAction_delta, Book.applyDelta]
    split
    · exact name_guardCrossed
    · exact ⟨rfl, rfl⟩

theorem name_applyActions (actions : List SyncAction) :
    SameName book (applyActions hash integrity now book actions).1 := by
  induction actions generalizing book with
  | nil => exact ⟨rfl, rfl⟩
  | cons action actions ih =>
    obtain ⟨venue, symbol⟩ := @ih (applyAction hash integrity now book action).1
    obtain ⟨first, second⟩ := @name_applyAction book hash integrity now action
    exact ⟨venue.trans first, symbol.trans second⟩

variable (v arith) in
theorem stream_receive (vb : VenueBook σ) (input : Input) :
    (receive v arith vb input).2.stream = vb.stream := by
  rw [VenueBook.stream, VenueBook.stream, (follows_receive v arith vb input).book]
  exact congrArg₂ StreamId.mk (name_applyActions _).1 (name_applyActions _).2

variable (v arith) in
/-- The events of a book carry its name. -/
theorem events_receive (vb : VenueBook σ) (input : Input) :
    ∀ e ∈ outcomeEvents (receive v arith vb input).1, ofStream vb.stream e = true := by
  intro e mem
  rw [(follows_receive v arith vb input).events] at mem
  obtain ⟨kind, -, rfl⟩ := List.mem_map.mp mem
  exact decide_eq_true rfl

end Names

section Live

variable {σ : Type u} {ω : Type v} {v : VenueSync σ} {arith : DecimalArith} {ops : WindowOps ω}
  {vb : VenueBook σ} {s : VenueState σ ω} {agg : Aggregator σ ω} {message : IngestMessage}
  {input : Input} {x : StreamId} {m : Mirror σ} {stamp : MarketEvent → IngestTime}

theorem deliver_receive (known : inputOf message = some input) :
    (deliver v arith vb message).2 = (receive v arith vb input).2 ∧
      eventsIn (deliver v arith vb message).1 = outcomeEvents (receive v arith vb input).1 := by
  cases message with
  | event stream event => cases known
  | sessionEnded stream now ending =>
    obtain rfl := Option.some.inj known
    exact ⟨rfl, rfl⟩
  | frame frame =>
    obtain rfl := Option.some.inj known
    rw [deliver, receive]
    cases fed : (vb.feed v arith frame).1 with
    | error e => exact ⟨rfl, rfl⟩
    | ok outcomes => exact ⟨rfl, rfl⟩

theorem emits_map (events : List MarketEvent) : emits (events.map Effect.emit) = events := by
  rw [emits, List.filterMap_map]
  exact List.filterMap_some

theorem emits_settle {before after : BookState} {outcomes : List Outcome} {now : IngestTime} :
    emits (applyToStream.settle ops true message s before after outcomes now).2 =
      outcomeEvents outcomes := by
  have only : ∀ asks : List Effect, emits asks = [] →
      emits (asks ++ (outcomeEvents outcomes).map Effect.emit) = outcomeEvents outcomes := by
    intro asks silent
    have whole := emits_map (outcomeEvents outcomes)
    rw [emits] at silent whole ⊢
    rw [List.filterMap_append, silent, whole, List.nil_append]
  rw [applyToStream.settle]
  cases asksResync before after
  · exact only [] rfl
  · exact only [.requestResync message.stream] rfl

/-- With a sink a message lets out the events of its delivery. -/
theorem emits_applyToStream : emits (applyToStream v arith ops true s message).2 =
    eventsIn (deliver v arith s.book message).1 := by
  cases message with
  | sessionEnded stream now ending => rfl
  | event stream event => exact emits_settle
  | frame frame =>
    simp only [applyToStream]
    cases (deliver v arith s.book (.frame frame)).1 with
    | error e => rfl
    | ok outcomes => exact emits_settle

theorem emittedBy_find (sink : agg.sink = true) : emittedBy v arith ops agg message =
    ((agg.streams.find? message.stream).map
      (fun s => eventsIn (deliver v arith s.book message).1)).getD [] := by
  rw [emittedBy, apply, sink]
  cases agg.streams.find? message.stream with
  | none => rfl
  | some s => exact emits_applyToStream

theorem sink_applied : (applied v arith ops agg message).sink = agg.sink := by
  rw [applied, apply]
  cases agg.streams.find? message.stream <;> rfl

theorem named_applied (named : Named agg) (known : inputOf message = some input) :
    Named (applied v arith ops agg message) := by
  intro x t found
  rcases find?_apply found with ⟨-, was⟩ | ⟨-, s, was, book⟩
  · exact named x t was
  · rw [book, (deliver_receive known).1, stream_receive]
    exact named x s was

/-- The events of a message are its stream's. -/
theorem foreign_events (sink : agg.sink = true) (named : Named agg)
    (known : inputOf message = some input) (foreign : x ≠ message.stream) :
    (emittedBy v arith ops agg message).filter (ofStream x) = [] := by
  rw [emittedBy_find sink]
  cases found : agg.streams.find? message.stream with
  | none => rfl
  | some s =>
    refine List.filter_eq_nil_iff.mpr fun e mem own => ?_
    rw [Option.map_some, Option.getD_some, (deliver_receive known).2] at mem
    have theirs := of_decide_eq_true (events_receive v arith s.book input e mem)
    rw [named _ s found] at theirs
    exact foreign ((of_decide_eq_true own).symm.trans theirs)

theorem own_events (sink : agg.sink = true) (named : Named agg)
    (known : inputOf message = some input) (found : agg.streams.find? message.stream = some s) :
    (emittedBy v arith ops agg message).filter (ofStream message.stream) =
      outcomeEvents (receive v arith s.book input).1 := by
  rw [emittedBy_find sink, found, Option.map_some, Option.getD_some, (deliver_receive known).2]
  refine List.filter_eq_self.mpr fun e mem => ?_
  have own := events_receive v arith s.book input e mem
  rwa [named _ s found] at own

variable (arith ops stamp) in
/-- Along a live run every book is followed by the replay of its events. -/
theorem followed (steady : Steady v) {messages : List IngestMessage}
    (live : ∀ m ∈ messages, (inputOf m).isSome = true) (sink : agg.sink = true) (named : Named agg)
    (found : agg.streams.find? x = some s) (faithful : m.Faithful v) (own : m.original = s.book) :
    ∃ t m', (exec (applied v arith ops) agg messages).streams.find? x = some t ∧
      Mirror.Faithful v m' ∧ m'.original = t.book ∧ m'.replayed = replayAll v stamp m.replayed
        ((outputs (applied v arith ops) (emittedBy v arith ops) agg messages).filter
          (ofStream x)) := by
  induction messages generalizing agg s m with
  | nil => exact ⟨s, m, found, faithful, own, rfl⟩
  | cons message messages ih =>
    obtain ⟨⟨input, known⟩, rest⟩ := List.forall_mem_cons.mp
      (fun m mem => Option.isSome_iff_exists.mp (live m mem))
    have live' : ∀ m ∈ messages, (inputOf m).isSome = true := fun m mem =>
      live m (List.mem_cons_of_mem _ mem)
    have sink' : (applied v arith ops agg message).sink = true := sink_applied.trans sink
    have named' : Named (applied v arith ops agg message) := named_applied named known
    rw [exec_cons, outputs, List.filter_append]
    by_cases same : x = message.stream
    · subst same
      have found' : (applied v arith ops agg message).streams.find? message.stream =
          some (applyToStream v arith ops agg.sink s message).1 := by
        rw [applied, apply_find, if_pos rfl, found]
        rfl
      have step := faithful_step arith stamp steady faithful input
      have own' : (m.step v arith stamp input).original =
          (applyToStream v arith ops agg.sink s message).1.book := by
        rw [applyToStream_book, (deliver_receive known).1, ← own]
        rfl
      obtain ⟨t, m', there, faithful', original, replayed⟩ := ih live' sink' named' found' step own'
      refine ⟨t, m', there, faithful', original, ?_⟩
      rw [replayed, own_events sink named known found, ← own, replayAll, replayAll,
        List.foldl_append]
      rfl
    · have found' : (applied v arith ops agg message).streams.find? x = some s := by
        rw [applied, apply_find, if_neg same]
        exact found
      rw [foreign_events sink named known same, List.nil_append]
      exact ih live' sink' named' found' faithful own

end Live

section Replays

variable {σ : Type u} {ω : Type v} {v : VenueSync σ} {arith : DecimalArith} {ops : WindowOps ω}
  {vb : VenueBook σ} {s : VenueState σ ω} {agg : Aggregator σ ω} {x : StreamId}
  {stamp : MarketEvent → IngestTime} {integrity : Integrity}

variable (arith ops) in
/-- The book of a stream sees the stream's events of a replay. -/
theorem retold_book (sent : List Sent) (found : agg.streams.find? x = some s) :
    ∃ t, (exec (applied v arith ops) agg (sent.map Sent.message)).streams.find? x = some t ∧
      t.book = replayAll v MarketEvent.ingestTs s.book
        ((sent.filter (fun e => e.stream = x)).map Sent.event) := by
  induction sent generalizing agg s with
  | nil => exact ⟨s, found, rfl⟩
  | cons e sent ih =>
    have first : (applied v arith ops agg e.message).streams.find? x =
        if x = e.stream then some (applyToStream v arith ops agg.sink s e.message).1
        else some s := by
      rw [applied, apply_find, found]
      rfl
    rw [List.map_cons, exec_cons]
    by_cases own : x = e.stream
    · rw [if_pos own] at first
      obtain ⟨t, there, book⟩ := ih first
      have kept : (e :: sent).filter (fun e => e.stream = x) =
          e :: sent.filter (fun e => e.stream = x) :=
        List.filter_cons_of_pos (decide_eq_true own.symm)
      refine ⟨t, there, ?_⟩
      rw [book, kept, applyToStream_book]
      rfl
    · rw [if_neg own] at first
      obtain ⟨t, there, book⟩ := ih first
      refine ⟨t, there, ?_⟩
      rw [book, List.filter_cons_of_neg (by simpa using fun same => own same.symm)]

theorem replayAll_cons {e : MarketEvent} {events : List MarketEvent} :
    replayAll v stamp vb (e :: events) =
      replayAll v stamp (vb.applyEvent v e (stamp e)).2 events := rfl

theorem applyEvent_book (vb : VenueBook σ) (event : MarketEvent) (now : IngestTime) :
    (vb.applyEvent v event now).2.book = (applyAction (v.checksum vb.sync) (v.integrity vb.sync) now
      vb.book (VenueBook.eventAction event.kind)).1 := rfl

/-- A replay moves the view of a book by what its events are, whenever they come. -/
theorem view_replayAll (stamp : MarketEvent → IngestTime) (vb : VenueBook σ)
    (events : List MarketEvent) :
    viewOf (replayAll v stamp vb events).book =
      replay (v.checksum vb.sync) vb.book.maxDepth (viewOf vb.book)
        (events.map (fun e => VenueBook.eventAction e.kind)) := by
  induction events generalizing vb with
  | nil => rfl
  | cons e events ih =>
    rw [replayAll_cons, ih, applyEvent_book, view_applyAction, applyAction_maxDepth]
    rfl

theorem sync_replayAll (stamp : MarketEvent → IngestTime) (vb : VenueBook σ)
    (events : List MarketEvent) : (replayAll v stamp vb events).sync = vb.sync := by
  induction events generalizing vb with
  | nil => rfl
  | cons e events ih => exact ih (vb.applyEvent v e (stamp e)).2

theorem rated_replayAll (stamp : MarketEvent → IngestTime) (events : List MarketEvent)
    (rated : Rated (v.integrity vb.sync) vb.book) :
    Rated (v.integrity vb.sync) (replayAll v stamp vb events).book := by
  induction events generalizing vb with
  | nil => exact rated
  | cons e events ih =>
    have first : Rated (v.integrity (vb.applyEvent v e (stamp e)).2.sync)
        (vb.applyEvent v e (stamp e)).2.book := EventReplay.rated_applyAction rated _
    exact ih first

theorem act_kindBack (hash : Levels → Option UInt32) (depth : Option Nat) (view : View)
    (kind : EventKind) : act hash depth view (VenueBook.eventAction (kindBack kind)) =
      act hash depth view (VenueBook.eventAction kind) := by
  cases kind <;> rfl

/-- What an archive changes of an event is no matter for a book. -/
theorem replay_kindBack {hash : Levels → Option UInt32} {depth : Option Nat} (view : View)
    (events : List MarketEvent) :
    replay hash depth view (events.map (fun e => VenueBook.eventAction (kindBack e.kind))) =
      replay hash depth view (events.map (fun e => VenueBook.eventAction e.kind)) := by
  induction events generalizing view with
  | nil => rfl
  | cons e events ih =>
    rw [List.map_cons, List.map_cons, replay_cons, replay_cons, act_kindBack, ih]

variable (v) in
theorem new_book {spec : VenueSpec σ} {windows : ω} {now : IngestTime} :
    (VenueState.new v spec.sync spec.symbol spec.maxDepth windows now).book =
      fresh v spec.sync spec.symbol spec.maxDepth .default := by
  obtain ⟨sync, symbol, depth⟩ := spec
  cases depth <;> rfl

theorem named_new {specs : List (VenueSpec σ)} {windows : ω} {now : IngestTime} {sink : Bool} :
    Named (Aggregator.new v specs windows now sink) := by
  intro x s found
  obtain ⟨spec, -, rfl, rfl⟩ := find?_new found
  obtain ⟨sync, symbol, depth⟩ := spec
  cases depth <;> rfl

theorem untracked (messages : List IngestMessage) (absent : agg.streams.find? x = none) :
    (exec (applied v arith ops) agg messages).streams.find? x = none := by
  induction messages generalizing agg with
  | nil => exact absent
  | cons message messages ih =>
    refine ih ?_
    rw [applied, apply_find, absent]
    exact ite_self none

/-- Two nodes of one configuration start with the same books. -/
theorem same_start {ω' : Type v} {specs : List (VenueSpec σ)} {windows : ω} {begin : IngestTime}
    {sink : Bool} (windows' : ω') (begin' : IngestTime) (sink' : Bool)
    (found : (Aggregator.new v specs windows begin sink).streams.find? x = some s) :
    ∃ t, (Aggregator.new v specs windows' begin' sink').streams.find? x = some t ∧
      t.book = s.book := by
  have alike : Option.Rel (fun s t => t.book = s.book)
      ((Aggregator.new v specs windows begin sink).streams.find? x)
      ((Aggregator.new v specs windows' begin' sink').streams.find? x) :=
    OrderedMap.rel_ofList (R := fun (s : VenueState σ ω) (t : VenueState σ ω') => t.book = s.book)
      (f := fun spec => VenueState.new v spec.sync spec.symbol spec.maxDepth windows begin)
      (g := fun spec => VenueState.new v spec.sync spec.symbol spec.maxDepth windows' begin')
      specs (VenueSpec.stream v) (fun spec => (new_book v).trans (new_book v).symm) x
  rw [found] at alike
  generalize is_ : (Aggregator.new v specs windows' begin' sink').streams.find? x = other at alike
  cases alike with
  | @some _ t same => exact ⟨t, rfl, same⟩

end Replays

section Reading

variable {B : Type} {parquet : Parquet B} {text : DecimalText} {objects : Objects B} {reader : Key}
  {events : List MarketEvent} {out : List StoredEvent}

/-- The events of every stream are read in the order in which they were written. -/
theorem read_inOrder (keeps : KeepsOrder parquet text objects reader events [])
    (reads : Reads parquet text objects reader out) (x : StreamId) :
    out.filter (fun e => e.stream = x) =
      (events.filter (ofStream x)).map (readBack (baseOf events)) := by
  obtain ⟨marked, rfl, old, order⟩ := keeps.2 out reads
  have new : ∀ e ∈ marked, e.1 = true := by
    have none_old := List.map_eq_nil_iff.mp old.eq_nil
    intro e mem
    have not_old := List.filter_eq_nil_iff.mp none_old e mem
    simpa using not_old
  have wide : ∀ e ∈ marked, decide (e.2.stream = x) =
      (decide (e.2.stream = x) && wanted x.symbol e) := by
    intro e mem
    by_cases own : e.2.stream = x
    · simp [wanted, new e mem, own]
    · simp [own]
  have narrow : ∀ e : MarketEvent, ofStream x e =
      (ofStream x e && decide (e.symbol = x.symbol)) := by
    intro e
    by_cases own : (⟨e.venue, e.symbol⟩ : StreamId) = x
    · simp [ofStream, ← own]
    · simp [ofStream, own]
  calc (marked.map Prod.snd).filter (fun e => decide (e.stream = x))
      = (marked.filter (fun e => decide (e.2.stream = x))).map Prod.snd := List.filter_map
    _ = ((marked.filter (wanted x.symbol)).filter
          (fun e => decide (e.2.stream = x))).map Prod.snd := by
        rw [List.filter_filter]
        exact congrArg (List.map Prod.snd) (List.filter_congr wide)
    _ = (((marked.filter (wanted x.symbol)).map Prod.snd).filter
          (fun e => decide (e.stream = x))) := by
        rw [List.filter_map]
        rfl
    _ = ((events.filter (fun e => decide (e.symbol = x.symbol))).filter (ofStream x)).map
          (readBack (baseOf events)) := by
        rw [order x.symbol, List.filter_map]
        rfl
    _ = (events.filter (ofStream x)).map (readBack (baseOf events)) := by
        rw [List.filter_filter]
        exact congrArg _ (List.filter_congr fun e _ => (narrow e).symm)

end Reading

section Rebuilding

variable {J : Type u} {K : Type v} {ω : Type x} {B : Type} {parquet : Parquet B}
  {text : DecimalText} {refuses : Nat → Bool} {store : Objects B} {raw reader : Key}
  {config : WriterConfig} {counters : ArchiveCounters} {events : List MarketEvent}

/-- What a node lets out of a run, its sink attached. -/
def archived (w : EveryWires J K) (arith : DecimalArith) (ops : WindowOps ω)
    (specs : List (VenueSpec EverySync)) (windows : ω) (begin : IngestTime)
    (messages : List IngestMessage) : List MarketEvent :=
  outputs (applied (everySync w) arith ops) (emittedBy (everySync w) arith ops)
    (Aggregator.new (everySync w) specs windows begin true) messages

/-- A book of the replay has the levels of the live book, and trusts them if that does. -/
def Rebuilt (live replayed : Book) : Prop :=
  replayed.levels = live.levels ∧ ∀ integrity since verified,
    live.state = .live integrity since verified →
      ∃ since' verified', replayed.state = .live integrity since' verified'

/-- From one start, the replay of what was read rebuilds the book of every stream. -/
theorem rebuilt (w : EveryWires J K) (arith : DecimalArith) (ops : WindowOps ω)
    (specs : List (VenueSpec EverySync)) (windows : ω) (begin begin' base : IngestTime)
    (sink : Bool) {messages : List IngestMessage}
    (live : ∀ m ∈ messages, (inputOf m).isSome = true) {out : List StoredEvent}
    (order : ∀ x, out.filter (fun e => e.stream = x) =
      ((archived w arith ops specs windows begin messages).filter (ofStream x)).map
        (readBack (baseOf (archived w arith ops specs windows begin messages))))
    {x : StreamId} {s : VenueState EverySync ω}
    (found : (exec (applied (everySync w) arith ops)
      (Aggregator.new (everySync w) specs windows begin true) messages).streams.find? x = some s) :
    ∃ t, (exec (applied (everySync w) arith ops)
        (Aggregator.new (everySync w) specs windows begin' sink)
        ((told false base none out).map Sent.message)).streams.find? x = some t ∧
      Rebuilt s.book.book t.book.book := by
  cases begun : (Aggregator.new (everySync w) specs windows begin true).streams.find? x with
  | none =>
    rw [untracked messages begun] at found
    cases found
  | some s₀ =>
    obtain ⟨s₁, begun', same⟩ := same_start windows begin' sink begun
    obtain ⟨spec, -, -, rfl⟩ := find?_new begun
    have initial : (EventReplay.start (everySync w) spec.sync spec.symbol spec.maxDepth
        .default).Faithful (everySync w) := faithful_start
    obtain ⟨t, m, there, faithful, original, replayed⟩ := followed arith ops MarketEvent.ingestTs
      (everySync_steady w) live rfl named_new begun initial (new_book _).symm
    obtain rfl := Option.some.inj (there.symm.trans found)
    obtain ⟨r, there', book⟩ := retold_book arith ops (told false base none out) begun'
    refine ⟨r, there', ?_⟩
    rw [new_book] at same
    -- What is told of the stream are the actions of its events.
    have actions : (((told false base none out).filter (fun e => e.stream = x)).map
        Sent.event).map (fun e => VenueBook.eventAction e.kind) =
          ((archived w arith ops specs windows begin messages).filter (ofStream x)).map
            (fun e => VenueBook.eventAction (kindBack e.kind)) := by
      have own : (out.map (fun e => sentAt base e.elapsed e)).filter (fun e => e.stream = x) =
          (out.filter (fun e => e.stream = x)).map (fun e => sentAt base e.elapsed e) := by
        rw [List.filter_map]
        rfl
      rw [told_recorded, own, order x, List.map_map, List.map_map, List.map_map]
      rfl
    have view : viewOf r.book.book = viewOf m.replayed.book := by
      rw [book, replayed, view_replayAll, view_replayAll, actions, replay_kindBack, same]
      rfl
    have blank : Rated ((everySync w).integrity s₁.book.sync) s₁.book.book := by
      rw [same]
      exact initial.replayRated
    have rated := rated_replayAll MarketEvent.ingestTs
      (((told false base none out).filter (fun e => e.stream = x)).map Sent.event) blank
    rw [← book, same] at rated
    have claims : (everySync w).integrity m.original.sync =
        (everySync w).integrity (fresh (everySync w) spec.sync spec.symbol spec.maxDepth
          .default).sync := by
      rw [← faithful.claims, replayed, sync_replayAll]
      rfl
    constructor
    · have levels : r.book.book.levels = m.original.book.levels :=
        (congrArg View.levels view).trans faithful.trails.levels
      rw [levels, original]
    · intro integrity since verified state
      have trusts : (viewOf m.original.book).status = .live := by
        rw [original]
        exact statusOf_live.mpr (congrArg BookState.isLive state)
      have believed := faithful.trails.trusted trusts
      rw [← view, viewOf, statusOf_live] at believed
      have claimed : integrity = (everySync w).integrity m.original.sync :=
        faithful.rated integrity since verified (by rw [original, state])
      cases now : r.book.book.state with
      | uninitialized =>
        rw [now] at believed
        cases believed
      | desynced since' reason =>
        rw [now] at believed
        cases believed
      | live integrity' since' verified' =>
        have theirs := rated integrity' since' verified' now
        rw [claimed, claims, ← theirs]
        exact ⟨since', verified', rfl⟩

/-- A run whose events are all written, each rotation to a file that sorts after the one it
closes, is rebuilt from its archive. Whatever was under the writer's prefix before held nothing. -/
theorem archive_rebuilds (w : EveryWires J K) (arith : DecimalArith) (ops : WindowOps ω)
    (specs : List (VenueSpec EverySync)) (windows : ω) (begin begin' base : IngestTime)
    (sink : Bool) (pacing : Pacing) {messages : List IngestMessage}
    (live : ∀ m ∈ messages, (inputOf m).isSome = true)
    (readable : Reads parquet text store reader [])
    (beneath : reader <+: intoPrefix raw ++ ['/'])
    (small : PartsBelow (2 ^ 63) (store.entries.map Prod.fst))
    (legible : ∀ e ∈ archived w arith ops specs windows begin messages, Legible text e)
    (met : Meets (step parquet refuses) SortsAfter (opening store raw config counters)
      (archived w arith ops specs windows begin messages))
    (quiet : (run parquet refuses (archived w arith ops specs windows begin messages)
      (opening store raw config counters)).counters.writeFailures = counters.writeFailures) :
    ∃ fuel r, replayArchiveMany parquet text
        (run parquet refuses (archived w arith ops specs windows begin messages)
          (opening store raw config counters)).objects [reader] base pacing (fun _ => .sent) fuel =
          some r ∧
      ∀ x s, (exec (applied (everySync w) arith ops)
          (Aggregator.new (everySync w) specs windows begin true) messages).streams.find? x =
            some s →
        ∃ t, (exec (applied (everySync w) arith ops)
            (Aggregator.new (everySync w) specs windows begin' sink)
            (r.sent.map Sent.message)).streams.find? x = some t ∧
          Rebuilt s.book.book t.book.book := by
  obtain ⟨closed, stored, order⟩ := run_stored
    (fun _ _ _ _ _ order after effect => inOrder_append order after effect)
    (fun p => ⟨List.Pairwise.nil, fun _ => rfl⟩) (fun _ _ order p => (order p).1) small met quiet
  have keeps := stored_keepsOrder stored readable beneath legible order
  obtain ⟨out, fuel, collected⟩ := keeps.1
  obtain ⟨r, replayed, sent⟩ : ∃ r, replayArchiveMany parquet text
      (run parquet refuses (archived w arith ops specs windows begin messages)
        (opening store raw config counters)).objects [reader] base pacing (fun _ => .sent) fuel =
        some r ∧ r.sent = told false base none out := replayLoop_all collected
  refine ⟨fuel, r, replayed, fun x s found => ?_⟩
  rw [sent]
  exact rebuilt w arith ops specs windows begin begin' base sink live
    (read_inOrder keeps ⟨fuel, collected⟩) found

end Rebuilding

section Sample

open ArchiveContents (plainParquet)
open EventReplay (historyWires krakenFrame heartbeatText)

def sampleSpecs : List (VenueSpec EverySync) :=
  [⟨.market (.kraken (KrakenFeed.KrakenSync.new "BTC/USD")), ⟨"BTC-USD"⟩, some 10⟩]

def sampleMessages : List IngestMessage :=
  [.frame (krakenFrame KrakenChecksums.sampleText), .frame (krakenFrame heartbeatText)]

def sampleEvents : List MarketEvent :=
  archived historyWires .idle noWindows sampleSpecs () ⟨0, 0⟩ sampleMessages

theorem archive_rebuilds_sample :
    ∃ fuel r, replayArchiveMany plainParquet .plain
        (run plainParquet (fun _ => false) sampleEvents
          (opening .empty "events".toList .default .zero)).objects ["events".toList] ⟨50, 60⟩
          .faithful (fun _ => .sent) fuel = some r ∧
      ∀ x s, (exec (applied (everySync historyWires) .idle noWindows)
          (Aggregator.new (everySync historyWires) sampleSpecs () ⟨0, 0⟩ true)
          sampleMessages).streams.find? x = some s →
        ∃ t, (exec (applied (everySync historyWires) .idle noWindows)
            (Aggregator.new (everySync historyWires) sampleSpecs () ⟨7, 8⟩ false)
            (r.sent.map Sent.message)).streams.find? x = some t ∧
          Rebuilt s.book.book t.book.book := by
  have small : PartsBelow (2 ^ 63) [] :=
    ⟨fun key mem => (List.not_mem_nil mem).elim, fun dir n mem => (List.not_mem_nil mem).elim⟩
  refine archive_rebuilds historyWires .idle noWindows sampleSpecs () ⟨0, 0⟩ ⟨7, 8⟩ ⟨50, 60⟩ false
    .faithful (by decide) ⟨1, rfl⟩ ⟨['/'], by decide⟩ small ?_ (by decide +kernel)
    (by decide +kernel)
  unfold Legible
  decide +kernel

end Sample

end ArchivedBooks
