import MarketAggregator.AggregatorApply
import MarketAggregator.CoinbaseCompleteness
import MarketAggregator.GuardedRuns
import Mathlib.Data.Nat.Count

/-!
# The account of a stream's outages

Every message of a stream leaves a mark: its instant, and whether it left the book
desynced. Time is charged to the state that the last mark so far has left. The
aggregator keeps three figures instead of the marks, and they agree with the marks as long
as the instants never run backwards.
-/

namespace DesyncAccounts

open AggregatorApply Clocks Decimals GuardedRuns MarketEvents OrderBook OrderedMaps VenueBooks
  VenueStreams

universe u v

structure Mark where
  instant : Nat
  desynced : Bool

/-- What the last mark up to an instant says. -/
def downAt (marks : List Mark) (instant : Nat) : Bool :=
  ((marks.filter (fun m => m.instant ≤ instant)).getLast?.map Mark.desynced).getD false

/-- How many nanoseconds before an instant were desynced. -/
def downtime (marks : List Mark) (now : Nat) : Nat :=
  Nat.count (fun n => downAt marks n = true) now

section Marks

variable {marks : List Mark} {m : Mark} {now : Nat}

theorem downAt_append_before {n : Nat} (before : n < m.instant) :
    downAt (marks ++ [m]) n = downAt marks n := by
  have late : ¬ m.instant ≤ n := by omega
  simp [downAt, List.filter_append, late]

theorem downAt_append_after {n : Nat} (after : m.instant ≤ n) :
    downAt (marks ++ [m]) n = m.desynced := by
  simp [downAt, List.filter_append, after]

/-- From its instant on the last mark decides. -/
theorem downtime_append (later : m.instant ≤ now) : downtime (marks ++ [m]) now =
    downtime marks m.instant + if m.desynced = true then now - m.instant else 0 := by
  obtain ⟨rest, rfl⟩ := Nat.exists_eq_add_of_le later
  rw [downtime, Nat.count_add, downtime]
  congr 1
  · rw [Nat.count_eq_card_filter_range, Nat.count_eq_card_filter_range]
    congr 1
    refine Finset.filter_congr fun n mem => ?_
    rw [downAt_append_before (Finset.mem_range.mp mem)]
  · simp only [downAt_append_after (Nat.le_add_right m.instant _), Nat.add_sub_cancel_left]
    cases m.desynced <;> simp

theorem downtime_nil : downtime [] now = 0 := by
  simp [downtime, downAt]

end Marks

/-- When a message was observed. -/
def stamp : IngestMessage → IngestTime
  | .frame frame => frame.ingestTs
  | .event _ event => event.ingestTs
  | .sessionEnded _ now _ => now

/-- The desync time so far, an outage in progress included. -/
def desyncedTotal {σ : Type u} {ω : Type v} (s : VenueState σ ω) (now : IngestTime) : Nat :=
  match s.desyncedSince with
  | some since => s.desyncedTotal + now.since since
  | none => s.desyncedTotal

/-- The book of a stream is desynced. -/
def down {σ : Type u} {ω : Type v} (agg : Aggregator σ ω) (x : StreamId) : Bool :=
  (agg.streams.find? x).any (fun s => isDesynced s.book.book.state)

/-- The aggregator, with the marks and the outages of every stream and the requests for it. -/
structure Ledger (σ : Type u) (ω : Type v) where
  agg : Aggregator σ ω
  marks : StreamId → List Mark
  outages : StreamId → Nat
  requests : StreamId → Nat

section Model

variable {σ : Type u} {ω : Type v} (v : VenueSync σ) (arith : DecimalArith) (ops : WindowOps ω)

def step (l : Ledger σ ω) (message : IngestMessage) : Ledger σ ω :=
  let applied := apply v arith ops l.agg message
  { agg := applied.1
    marks := fun x =>
      if x = message.stream then l.marks x ++ [⟨(stamp message).mono, down applied.1 x⟩]
      else l.marks x
    outages := fun x => l.outages x + if !down l.agg x && down applied.1 x then 1 else 0
    requests := fun x =>
      l.requests x + (applied.2.filter (fun effect => effect = .requestResync x)).length }

def start (specs : List (VenueSpec σ)) (windows : ω) (now : IngestTime) (sink : Bool) :
    Ledger σ ω where
  agg := Aggregator.new v specs windows now sink
  marks := fun _ => []
  outages := fun _ => 0
  requests := fun _ => 0

/-- The figures of a stream say what its marks say, at an instant after all of them. -/
structure Exact (l : Ledger σ ω) (x : StreamId) (s : VenueState σ ω) (now : IngestTime) :
    Prop where
  since : s.desyncedSince.isSome = isDesynced s.book.book.state
  total : desyncedTotal s now = downtime (l.marks x) now.mono
  desyncs : s.counters.desyncs = l.outages x
  requests : l.requests x ≤ s.counters.desyncs

end Model

section Charges

variable {σ : Type u} {ω : Type v} {v : VenueSync σ} {arith : DecimalArith} {ops : WindowOps ω}
  {s t : VenueState σ ω} {message : IngestMessage} {now : IngestTime}

/-- What a message charges a stream for a move of its book in or out of an outage. -/
structure Charges (before after : Bool) (now : IngestTime) (s t : VenueState σ ω) : Prop where
  since : t.desyncedSince = if before = after then s.desyncedSince
    else if after = true then some now else none
  total : t.desyncedTotal = if before = true ∧ after = false then desyncedTotal s now
    else s.desyncedTotal
  desyncs : t.counters.desyncs = s.counters.desyncs + if !before && after then 1 else 0

theorem charges_noteTransition {before after : BookState} :
    Charges (isDesynced before) (isDesynced after) now s (s.noteTransition before after now) := by
  rw [VenueState.noteTransition]
  cases isDesynced before <;> cases isDesynced after
  · exact ⟨rfl, rfl, rfl⟩
  · exact ⟨rfl, rfl, rfl⟩
  · constructor
    · rfl
    · cases since : s.desyncedSince <;> simp [desyncedTotal, since]
    · rfl
  · exact ⟨rfl, rfl, rfl⟩

theorem isDesynced_of_sameStatus {before after : BookState} (same : before.sameStatus after = true) :
    isDesynced before = isDesynced after := by
  cases before <;> cases after <;> first | rfl | cases same

/-- A change that does not move the status charges nothing. -/
theorem charges_same {before after : BookState} (same : before.sameStatus after = true) :
    Charges (isDesynced before) (isDesynced after) now s s := by
  rw [isDesynced_of_sameStatus same]
  cases isDesynced after <;> exact ⟨rfl, rfl, rfl⟩

/-- The three figures are where they were. -/
structure SameFigures (s t : VenueState σ ω) : Prop where
  since : t.desyncedSince = s.desyncedSince
  total : t.desyncedTotal = s.desyncedTotal
  desyncs : t.counters.desyncs = s.counters.desyncs

theorem sameFigures_noteEvents (ops : WindowOps ω) (events : List MarketEvent) :
    SameFigures s (events.foldl (VenueState.noteEvent ops) s) := by
  induction events generalizing s with
  | nil => exact ⟨rfl, rfl, rfl⟩
  | cons event events ih =>
    have first : SameFigures s (s.noteEvent ops event) := by
      rw [VenueState.noteEvent]
      split <;> exact ⟨rfl, rfl, rfl⟩
    have rest := ih (s := s.noteEvent ops event)
    constructor
    · exact rest.since.trans first.since
    · exact rest.total.trans first.total
    · exact rest.desyncs.trans first.desyncs

theorem Charges.carry {before after : Bool} {u : VenueState σ ω} (h : Charges before after now s t)
    (same : SameFigures t u) : Charges before after now s u := by
  constructor
  · exact same.since.trans h.since
  · exact same.total.trans h.total
  · exact same.desyncs.trans h.desyncs

/-- The transition is noted exactly when the status moves. -/
theorem charges_noted {before after : BookState} :
    Charges (isDesynced before) (isDesynced after) now s
      (if before.sameStatus after then s else s.noteTransition before after now) := by
  by_cases same : before.sameStatus after = true
  · rw [if_pos same]
    exact charges_same same
  · rw [if_neg same]
    exact charges_noteTransition

theorem charges_settle {sink : Bool} {before after : BookState} {outcomes : List Outcome} :
    Charges (isDesynced before) (isDesynced after) now s
      (applyToStream.settle ops sink message s before after outcomes now).1 := by
  have noted : Charges (isDesynced before) (isDesynced after) now s _ := charges_noted
  have events := noted.carry (sameFigures_noteEvents ops (outcomeEvents outcomes))
  exact events.carry ⟨rfl, rfl, rfl⟩

/-- Counting the message and moving the book charges nothing by itself. -/
theorem Charges.entered {before after : Bool} (book : VenueBook σ) (applied : Nat)
    (h : Charges before after now
      { s with counters := { s.counters with applied := applied }, book := book } t) :
    Charges before after now s t :=
  ⟨h.since, h.total, h.desyncs⟩

/-- Every message charges its stream for the move that it makes, and for nothing else. -/
theorem charges_applyToStream {sink : Bool} :
    Charges (isDesynced s.book.book.state)
      (isDesynced (applyToStream v arith ops sink s message).1.book.book.state) (stamp message) s
      (applyToStream v arith ops sink s message).1 := by
  rw [applyToStream_book]
  cases message with
  | sessionEnded stream ended ending =>
    refine Charges.entered (deliver v arith s.book (.sessionEnded stream ended ending)).2
      (s.counters.applied + 1) (Charges.carry charges_noted ?_)
    exact ⟨rfl, rfl, rfl⟩
  | event stream event =>
    have done : (deliver v arith s.book (.event stream event)).1 =
        .ok (s.book.applyEvent v event event.ingestTs).1 := rfl
    simp only [applyToStream, done]
    exact Charges.entered _ _ charges_settle
  | frame frame =>
    cases result : (deliver v arith s.book (.frame frame)).1 with
    | error e =>
      rw [deliver_error result]
      simp only [applyToStream, result]
      constructor
      · rw [if_pos rfl]
        rfl
      · cases isDesynced s.book.book.state <;> rfl
      · cases isDesynced s.book.book.state <;> rfl
    | ok outcomes =>
      simp only [applyToStream, result]
      exact Charges.entered _ _ charges_settle

end Charges

section Runs

variable {σ : Type u} {ω : Type v} {v : VenueSync σ} {arith : DecimalArith} {ops : WindowOps ω}
  {l : Ledger σ ω} {x : StreamId} {s : VenueState σ ω} {message : IngestMessage}

/-- The figures are exact at every instant after the marks, and an outage in progress began
at one of them. -/
structure Accounted (l : Ledger σ ω) (x : StreamId) (s : VenueState σ ω) : Prop where
  since : s.desyncedSince.isSome = isDesynced s.book.book.state
  begun : ∀ since, s.desyncedSince = some since → ∃ m ∈ l.marks x, since.mono ≤ m.instant
  total : ∀ now : IngestTime, (∀ m ∈ l.marks x, m.instant ≤ now.mono) →
    desyncedTotal s now = downtime (l.marks x) now.mono
  desyncs : s.counters.desyncs = l.outages x
  requests : l.requests x ≤ l.outages x

theorem marks_step : (step v arith ops l message).marks x = if x = message.stream then
    l.marks x ++ [⟨(stamp message).mono, down (step v arith ops l message).agg x⟩]
    else l.marks x := rfl

theorem down_found (found : l.agg.streams.find? x = some s) :
    down l.agg x = isDesynced s.book.book.state := by
  rw [down, found, Option.any_some]

theorem down_step (found : l.agg.streams.find? message.stream = some s) :
    down (step v arith ops l message).agg message.stream =
      isDesynced (applyToStream v arith ops l.agg.sink s message).1.book.book.state := by
  rw [down, step, apply_find, if_pos rfl, found]
  rfl

/-- A request is made only for the stream of the message, whose book has just been
desynced. -/
theorem requested (asked : .requestResync x ∈ (apply v arith ops l.agg message).2) :
    x = message.stream ∧ down l.agg x = false ∧
      down (step v arith ops l message).agg x = true := by
  cases found : l.agg.streams.find? message.stream with
  | none =>
    rw [apply_untracked found] at asked
    cases asked
  | some s =>
    simp only [apply, found] at asked
    obtain ⟨rfl, -, asks⟩ := requestResync_mem.mp asked
    obtain ⟨fault, up⟩ := asksResync_iff.mp asks
    refine ⟨rfl, (down_found found).trans up, (down_step found).trans ?_⟩
    rw [applyToStream_book]
    cases state : (deliver v arith s.book message).2.book.state <;> rw [state] at fault <;>
      first | rfl | cases fault

theorem requests_step : (step v arith ops l message).requests x ≤ l.requests x +
    if !down l.agg x && down (step v arith ops l message).agg x then 1 else 0 := by
  refine Nat.add_le_add_left ?_ _
  by_cases asked : .requestResync x ∈ (apply v arith ops l.agg message).2
  · obtain ⟨-, before, after⟩ := requested asked
    rw [before, after]
    exact requests_le_one x
  · have none : (apply v arith ops l.agg message).2.filter
        (fun effect => effect = .requestResync x) = [] := by
      refine List.filter_eq_nil_iff.mpr ?_
      intro effect mem same
      rw [of_decide_eq_true same] at mem
      exact asked mem
    rw [none]
    exact Nat.zero_le _

/-- Requests never outnumber outages. -/
theorem requests_le_outages (kept : l.requests x ≤ l.outages x) :
    (step v arith ops l message).requests x ≤ (step v arith ops l message).outages x :=
  Nat.le_trans requests_step (Nat.add_le_add_right kept _)

theorem Accounted.since_le (h : Accounted l x s) {since now : IngestTime}
    (begun : s.desyncedSince = some since) (later : ∀ m ∈ l.marks x, m.instant ≤ now.mono) :
    since.mono ≤ now.mono := by
  obtain ⟨m, mem, le⟩ := h.begun since begun
  exact Nat.le_trans le (later m mem)

/-- One more mark, and the outage that it begins, ends or leaves as it is. -/
theorem Accounted.total_step (h : Accounted l x s) {t : VenueState σ ω} {after : Bool}
    {at_mark now : IngestTime}
    (charged : Charges (isDesynced s.book.book.state) after at_mark s t)
    (past : ∀ m ∈ l.marks x, m.instant ≤ at_mark.mono) (later : at_mark.mono ≤ now.mono) :
    desyncedTotal t now = downtime (l.marks x ++ [⟨at_mark.mono, after⟩]) now.mono := by
  have before := h.total at_mark past
  have since := charged.since
  have total := charged.total
  have known := h.since
  rw [downtime_append later, ← before]
  cases begun : s.desyncedSince with
  | none =>
    rw [begun] at known
    rw [← known, begun] at since
    rw [← known] at total
    cases after with
    | true =>
      have since' : t.desyncedSince = some at_mark := since
      have total' : t.desyncedTotal = s.desyncedTotal := total
      simp [desyncedTotal, begun, since', total', IngestTime.since]
    | false =>
      have since' : t.desyncedSince = none := since
      have total' : t.desyncedTotal = s.desyncedTotal := total
      simp [desyncedTotal, begun, since', total']
  | some start =>
    have le := h.since_le begun past
    rw [begun] at known
    rw [← known, begun] at since
    rw [← known] at total
    cases after with
    | true =>
      have since' : t.desyncedSince = some start := since
      have total' : t.desyncedTotal = s.desyncedTotal := total
      simp only [desyncedTotal, begun, since', total', IngestTime.since, if_true]
      omega
    | false =>
      have since' : t.desyncedSince = none := since
      have total' : t.desyncedTotal = desyncedTotal s at_mark := total
      simp [desyncedTotal, begun, since', total']

theorem Accounted.own (h : Accounted l message.stream s)
    (found : l.agg.streams.find? message.stream = some s)
    (past : ∀ m ∈ l.marks message.stream, m.instant ≤ (stamp message).mono) :
    Accounted (step v arith ops l message) message.stream
      (applyToStream v arith ops l.agg.sink s message).1 := by
  let t := (applyToStream v arith ops l.agg.sink s message).1
  have charged : Charges (isDesynced s.book.book.state) (isDesynced t.book.book.state)
      (stamp message) s t := charges_applyToStream
  have before := down_found found
  have after : down (step v arith ops l message).agg message.stream =
      isDesynced t.book.book.state := down_step found
  have marks : (step v arith ops l message).marks message.stream =
      l.marks message.stream ++ [⟨(stamp message).mono, isDesynced t.book.book.state⟩] := by
    rw [marks_step, if_pos rfl, after]
  have outages : (step v arith ops l message).outages message.stream =
      l.outages message.stream +
        if !isDesynced s.book.book.state && isDesynced t.book.book.state then 1 else 0 := by
    rw [← before, ← after]
    rfl
  constructor
  · show t.desyncedSince.isSome = isDesynced t.book.book.state
    rw [charged.since, ← h.since]
    by_cases same : s.desyncedSince.isSome = isDesynced t.book.book.state
    · rw [if_pos same, same]
    · rw [if_neg same]
      cases isDesynced t.book.book.state <;> rfl
  · intro since begun
    rw [marks]
    rw [charged.since] at begun
    split at begun
    · obtain ⟨m, mem, le⟩ := h.begun since begun
      exact ⟨m, List.mem_append_left _ mem, le⟩
    · split at begun
      · cases begun
        exact ⟨_, List.mem_append_right _ List.mem_cons_self, Nat.le_refl _⟩
      · cases begun
  · intro now later
    rw [marks] at later ⊢
    have last : (stamp message).mono ≤ now.mono :=
      later ⟨(stamp message).mono, isDesynced t.book.book.state⟩ (by simp)
    exact h.total_step charged past last
  · rw [outages, ← h.desyncs]
    exact charged.desyncs
  · exact requests_le_outages h.requests

theorem Accounted.other (h : Accounted l x s) (other : x ≠ message.stream) :
    Accounted (step v arith ops l message) x s := by
  have marks : (step v arith ops l message).marks x = l.marks x := by
    rw [marks_step, if_neg other]
  have same : down (step v arith ops l message).agg x = down l.agg x := by
    rw [down, step, apply_find, if_neg other]
    rfl
  have outages : (step v arith ops l message).outages x = l.outages x := by
    have moved : (step v arith ops l message).outages x = l.outages x +
        if !down l.agg x && down (step v arith ops l message).agg x then 1 else 0 := rfl
    rw [moved, same]
    cases down l.agg x <;> rfl
  constructor
  · exact h.since
  · rw [marks]
    exact h.begun
  · rw [marks]
    exact h.total
  · rw [outages]
    exact h.desyncs
  · exact requests_le_outages h.requests

/-- Every stream's figures are kept, and every mark is the instant of a message. -/
structure AllAccounted (messages : List IngestMessage) (l : Ledger σ ω) : Prop where
  stamped : ∀ x, ∀ m ∈ l.marks x, ∃ message ∈ messages, (stamp message).mono = m.instant
  accounted : ∀ x s, l.agg.streams.find? x = some s → Accounted l x s

theorem accounted_start {specs : List (VenueSpec σ)} {windows : ω} {now : IngestTime} {sink : Bool} :
    AllAccounted [] (start v specs windows now sink) := by
  constructor
  · intro x m mem
    cases mem
  · intro x s found
    obtain ⟨spec, -, -, rfl⟩ := find?_new found
    constructor
    · rw [new_state]
      rfl
    · intro since begun
      cases begun
    · intro now past
      exact downtime_nil.symm
    · rfl
    · exact Nat.le_refl _

theorem AllAccounted.kept {messages : List IngestMessage} (h : AllAccounted messages l)
    (past : ∀ earlier ∈ messages, (stamp earlier).mono ≤ (stamp message).mono) :
    AllAccounted (messages ++ [message]) (step v arith ops l message) := by
  constructor
  · intro x m mem
    by_cases own : x = message.stream
    · rw [marks_step, if_pos own] at mem
      rcases List.mem_append.mp mem with before | last
      · obtain ⟨earlier, given, same⟩ := h.stamped x m before
        exact ⟨earlier, List.mem_append_left _ given, same⟩
      · obtain rfl := List.mem_singleton.mp last
        exact ⟨message, by simp, rfl⟩
    · rw [marks_step, if_neg own] at mem
      obtain ⟨earlier, given, same⟩ := h.stamped x m mem
      exact ⟨earlier, List.mem_append_left _ given, same⟩
  · intro x s found
    have tracked := found
    rw [step, apply_find] at tracked
    by_cases own : x = message.stream
    · subst own
      rw [if_pos rfl] at tracked
      obtain ⟨t, before, rfl⟩ := Option.map_eq_some_iff.mp tracked
      refine (h.accounted _ t before).own before ?_
      intro m mem
      obtain ⟨earlier, given, same⟩ := h.stamped _ m mem
      rw [← same]
      exact past earlier given
    · rw [if_neg own] at tracked
      exact (h.accounted x s tracked).other own

theorem accounted_run (v : VenueSync σ) (arith : DecimalArith) (ops : WindowOps ω)
    (specs : List (VenueSpec σ)) (windows : ω) (begin : IngestTime) (sink : Bool)
    (messages : List IngestMessage)
    (ordered : messages.Pairwise (fun a b => (stamp a).mono ≤ (stamp b).mono)) :
    AllAccounted messages (exec (step v arith ops) (start v specs windows begin sink) messages) := by
  induction messages using List.reverseRecOn with
  | nil => exact accounted_start
  | append_singleton messages message ih =>
    obtain ⟨before, -, past⟩ := List.pairwise_append.mp ordered
    rw [exec_append]
    exact (ih before).kept fun earlier given => past earlier given message List.mem_cons_self

end Runs

/-- After messages with instants that never run backwards, the desync figures of every
stream are what its marks say, at every later instant. -/
theorem desync_accounts_exact {σ : Type u} {ω : Type v} (v : VenueSync σ) (arith : DecimalArith)
    (ops : WindowOps ω) (specs : List (VenueSpec σ)) (windows : ω) (begin : IngestTime)
    (sink : Bool) (messages : List IngestMessage)
    (ordered : messages.Pairwise (fun a b => (stamp a).mono ≤ (stamp b).mono)) (x : StreamId)
    (s : VenueState σ ω)
    (found : (exec (step v arith ops) (start v specs windows begin sink)
      messages).agg.streams.find? x = some s)
    (now : IngestTime) (later : ∀ message ∈ messages, (stamp message).mono ≤ now.mono) :
    Exact (exec (step v arith ops) (start v specs windows begin sink) messages) x s now := by
  have all := accounted_run v arith ops specs windows begin sink messages ordered
  have kept := all.accounted x s found
  constructor
  · exact kept.since
  · refine kept.total now ?_
    intro m mem
    obtain ⟨message, given, same⟩ := all.stamped x m mem
    rw [← same]
    exact later message given
  · exact kept.desyncs
  · rw [kept.desyncs]
    exact kept.requests

section Sample

open CoinbaseCompleteness CoinbaseFeed

def bitcoin : StreamId := ⟨.coinbase, ⟨"BTC-USD"⟩⟩

/-- A session that ends, a snapshot three seconds later, and another end. -/
def twoOutages : List IngestMessage :=
  [.sessionEnded bitcoin ⟨1000000000, 0⟩ .closed,
    .frame ⟨bitcoin, .text (message "0" snapshotEvent), ⟨4000000000, 0⟩, .webSocket⟩,
    .sessionEnded bitcoin ⟨5000000000, 0⟩ .errored]

/-- Two seconds into the second outage. -/
theorem desync_accounts_exact_two_outages :
    ∃ s, (exec (step (CoinbaseSync.sync sampleWire) DecimalArith.idle noWindows)
        (start (CoinbaseSync.sync sampleWire) [⟨CoinbaseSync.new "BTC-USD", ⟨"BTC-USD"⟩, none⟩] ()
          ⟨0, 0⟩ false) twoOutages).agg.streams.find? bitcoin = some s ∧
      desyncedTotal s ⟨7000000000, 0⟩ = 5000000000 ∧
      Exact (exec (step (CoinbaseSync.sync sampleWire) DecimalArith.idle noWindows)
        (start (CoinbaseSync.sync sampleWire) [⟨CoinbaseSync.new "BTC-USD", ⟨"BTC-USD"⟩, none⟩] ()
          ⟨0, 0⟩ false) twoOutages) bitcoin s ⟨7000000000, 0⟩ := by
  have total : ((exec (step (CoinbaseSync.sync sampleWire) DecimalArith.idle noWindows)
      (start (CoinbaseSync.sync sampleWire) [⟨CoinbaseSync.new "BTC-USD", ⟨"BTC-USD"⟩, none⟩] ()
        ⟨0, 0⟩ false) twoOutages).agg.streams.find? bitcoin).map
      (fun s => desyncedTotal s ⟨7000000000, 0⟩) = some 5000000000 := by
    decide +kernel
  obtain ⟨s, found, charged⟩ := Option.map_eq_some_iff.mp total
  refine ⟨s, found, charged, ?_⟩
  exact desync_accounts_exact _ _ _ _ _ _ _ _ (by decide) _ _ found _ (by decide)

end Sample

end DesyncAccounts
